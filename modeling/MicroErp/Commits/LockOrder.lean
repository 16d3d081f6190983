import MicroErp.Commits.Scopes
import MicroErp.Concurrency.LockOrder
import Mathlib.Data.Prod.Lex

/-!
# The order in which the services lock

Customers come before the slots of keys, these before the tenants, then the shifts, the transactions
and the batches; within the customers, the tenants and the transactions the identifiers decide.  The
programs take their locks in this order, those that lock many rows at once if they meet them in the
order of their identifiers.
-/

namespace MicroErp.Commits

open MicroErp.Concurrency MicroErp.Database MicroErp.Services MicroErp.Storage

/-- How high a lock stands.  Only merges lock transactions of a tenant beside the closing of its
shift, so without them all transactions stand level. -/
def heightOf (merging : Bool) : LockName → ℕ ×ₗ ℕ
  | .customer id => toLex (0, id)
  | .transactionKey _ _ => toLex (1, 0)
  | .customerKey _ _ => toLex (1, 0)
  | .tenant id => toLex (2, id)
  | .shift _ => toLex (3, 0)
  | .billingEvent _ => toLex (3, 0)
  | .externalPayment _ => toLex (3, 0)
  | .transaction id => toLex (4, if merging then id else 0)
  | .batch _ => toLex (5, 0)
  | .batchKey _ _ => toLex (5, 0)
  | .user _ => toLex (6, 0)

/-- The lock on the tenant guards the transactions that the closing of a shift freezes. -/
def guardOf (own : Uuid → Option Uuid) : LockName → LockName
  | .transaction id => .tenant ((own id).getD 0)
  | name => name

def lockOrder (own : Uuid → Option Uuid) (merging : Bool) : LockOrder LockName (ℕ ×ₗ ℕ) where
  height := heightOf merging
  guard := guardOf own

/-- Locks that nobody else wants in a conflicting mode: the checks of foreign keys on users and
transactions, and the slots of rows that the session itself inserts under generated identifiers. -/
def Idle (env : Env) : LockName × LockMode → Prop
  | (.user _, .keyShare) => True
  | (.transaction _, .keyShare) => True
  | (.transaction id, .update) => ∃ n, env.fresh n = id
  | (.transactionKey _ key, .update) => ∃ n, env.fresh n = key
  | _ => False

/-- The locks that a request with this key may name: it only inserts rows under its own key and under
generated identifiers, and never locks a user for itself. -/
def Named (slot : Option (Uuid × Uuid)) (env : Env) : LockName × LockMode → Prop
  | (.user _, mode) => mode = .keyShare
  | (.transaction id, mode) => mode = .update → ∃ n, env.fresh n = id
  | (.transactionKey tenantId key, _) => (tenantId, key) ∈ slot ∨ ∃ n, env.fresh n = key
  | _ => True

/-- All held locks stand below the height, but for the idle ones. -/
def Below (merging : Bool) (env : Env) (h : ℕ ×ₗ ℕ) (lk : List (LockName × LockMode)) : Prop :=
  ∀ y ∈ lk, Idle env y ∨ heightOf merging y.1 < h

/-- The session may ask for the lock. -/
def MayAsk (own : Uuid → Option Uuid) (merging : Bool) (slot : Option (Uuid × Uuid)) (env : Env)
    (lk : List (LockName × LockMode)) (x : LockName × LockMode) : Prop :=
  Named slot env x ∧ (lockOrder own merging).Fits (Idle env) lk x

/-- From these locks on the program takes its locks in order; at its end `Q` holds of its answer and
of the locks that it holds. -/
abbrev Asking (own : Uuid → Option Uuid) (merging : Bool) (slot : Option (Uuid × Uuid)) (env : Env)
    {α : Type} (p : Script α)
    (lk : List (LockName × LockMode)) (Q : α → List (LockName × LockMode) → Prop) : Prop :=
  p.Locks postgres (Db.Owned own) (MayAsk own merging slot env) (fun a st ↦ ∃ l, st = some l ∧ Q a l)
    (some lk)

/-- From these locks on the program takes its locks in order, and then none. -/
abbrev Finishing (own : Uuid → Option Uuid) (merging : Bool) (slot : Option (Uuid × Uuid)) (env : Env)
    {α : Type} (p : Script α)
    (lk : List (LockName × LockMode)) : Prop :=
  p.Locks postgres (Db.Owned own) (MayAsk own merging slot env) (fun _ _ ↦ True) (some lk)

variable {own : Uuid → Option Uuid} {merging : Bool} {slot : Option (Uuid × Uuid)} {env : Env} {α β : Type}
  {lk l : List (LockName × LockMode)} {x : LockName × LockMode} {h h' : ℕ ×ₗ ℕ}

/-! ## Heights -/

theorem low_lt {a b c d : ℕ} (hac : a < c) : toLex (a, b) < toLex (c, d) :=
  Prod.Lex.toLex_lt_toLex.2 (Or.inl hac)

theorem high_lt {a b d : ℕ} (hbd : b < d) : toLex (a, b) < toLex (a, d) :=
  Prod.Lex.toLex_lt_toLex.2 (Or.inr ⟨rfl, hbd⟩)

theorem below_nil : Below merging env h [] := fun _ hy ↦ (List.not_mem_nil hy).elim

theorem Below.mono (hlk : Below merging env h lk) (hle : h ≤ h') : Below merging env h' lk :=
  fun y hy ↦ (hlk y hy).imp id fun hlt ↦ hlt.trans_le hle

theorem Below.append (hlk : Below merging env h lk) (hl : Below merging env h l) :
    Below merging env h (lk ++ l) :=
  fun y hy ↦ (List.mem_append.1 hy).elim (hlk y) (hl y)

theorem below_singleton (hx : Idle env x ∨ heightOf merging x.1 < h) : Below merging env h [x] :=
  fun _ hy ↦ (List.mem_singleton.1 hy) ▸ hx

theorem mayAsk_of_below (hx : Named slot env x) (hlk : Below merging env (heightOf merging x.1) lk) :
    MayAsk own merging slot env lk x :=
  ⟨hx, Or.inr (Or.inr fun y hy ↦ (hlk y hy).imp id Or.inl)⟩

theorem mayAsk_of_held {m : LockMode} (hx : Named slot env x) (hheld : (x.1, m) ∈ lk)
    (hcovers : m.covers x.2) : MayAsk own merging slot env lk x :=
  ⟨hx, Or.inr (Or.inl ⟨m, hheld, hcovers⟩)⟩

theorem mayAsk_of_update (hx : Named slot env x) (hheld : (x.1, .update) ∈ lk) :
    MayAsk own merging slot env lk x :=
  mayAsk_of_held hx hheld (LockMode.update_covers _)

theorem mayAsk_of_idle (hx : Named slot env x) (hidle : Idle env x) :
    MayAsk own merging slot env lk x :=
  ⟨hx, Or.inl hidle⟩

theorem named_update (id : Uuid) : Named slot env (.transaction id, .noKeyUpdate) := nofun

/-! ## Rules -/

section Rules

variable {Q : α → List (LockName × LockMode) → Prop} {Q' : β → List (LockName × LockMode) → Prop}

theorem Asking.bind {p : Script α} {f : α → Script β} (hp : Asking own merging slot env p lk Q)
    (hf : ∀ a l, Q a l → Asking own merging slot env (f a) l Q') :
    Asking own merging slot env (p >>= f) lk Q' :=
  Prog.Locks.bind hp fun a _ ⟨l, hst, hQ⟩ ↦ hst ▸ hf a l hQ

theorem Asking.mono {p : Script α} {Q' : α → List (LockName × LockMode) → Prop}
    (hp : Asking own merging slot env p lk Q) (hQ : ∀ a l, Q a l → Q' a l) :
    Asking own merging slot env p lk Q' :=
  Prog.Locks.mono hp fun a _ ⟨l, hst, h⟩ ↦ ⟨l, hst, hQ a l h⟩

theorem Asking.finish {p : Script α} {f : α → Script β} (hp : Asking own merging slot env p lk Q)
    (hf : ∀ a l, Q a l → Finishing own merging slot env (f a) l) :
    Finishing own merging slot env (p >>= f) lk :=
  Prog.Locks.bind hp fun a _ ⟨l, hst, hQ⟩ ↦ hst ▸ hf a l hQ

theorem query_asking (o : Sql) {Q : o.Ans → List (LockName × LockMode) → Prop}
    (h : ∀ v : Db, v.Owned own → (∀ x ∈ o.locks v, MayAsk own merging slot env lk x) ∧
      ∀ r ws, o.exec v = .ok (r, ws) → Q r (lk ++ o.locks v)) :
    Asking own merging slot env (query o) lk Q :=
  fun v hv ↦ ⟨(h v hv).1, fun r ws hexec ↦ ⟨_, rfl, (h v hv).2 r ws hexec⟩⟩

/-- A statement that takes no locks. -/
theorem read_asking (o : Sql) (hnone : ∀ v, o.locks v = []) (lk : List (LockName × LockMode)) :
    Asking own merging slot env (query o) lk fun _ l ↦ l = lk := by
  refine query_asking o fun v _ ↦ ?_
  rw [hnone v]
  exact ⟨fun _ hx ↦ (List.not_mem_nil hx).elim, fun _ _ _ ↦ List.append_nil lk⟩

/-- A statement that takes one lock. -/
theorem update_asking (o : Sql) (hlocks : ∀ v, o.locks v = [x]) (hx : MayAsk own merging slot env lk x) :
    Asking own merging slot env (query o) lk fun _ l ↦ l = lk ++ [x] := by
  refine query_asking o fun v _ ↦ ?_
  rw [hlocks v]
  exact ⟨fun y hy ↦ (List.mem_singleton.1 hy) ▸ hx, fun _ _ _ ↦ rfl⟩

/-- The locks after a save of the row of `x`, which takes its lock if a column differs. -/
def Saved (lk : List (LockName × LockMode)) (x : LockName × LockMode)
    (l : List (LockName × LockMode)) : Prop := l = lk ∨ l = lk ++ [x]

theorem Saved.subset (hl : Saved lk x l) : lk ⊆ l := by
  rcases hl with rfl | rfl
  · exact List.Subset.refl _
  · exact List.subset_append_left _ _

theorem Saved.below (hl : Saved lk x l) (hlk : Below merging env h lk)
    (hx : Idle env x ∨ heightOf merging x.1 < h) : Below merging env h l := by
  rcases hl with rfl | rfl
  · exact hlk
  · exact hlk.append (below_singleton hx)

theorem saveEntity_asking {E : Type} [DecidableEq E] {entity : E} {find : Script (Option E)}
    {update : E → Script Unit} (hfind : Asking own merging slot env find lk fun _ l ↦ l = lk)
    (hupdate : ∀ reread, Asking own merging slot env (update reread) lk fun _ l ↦ l = lk ++ [x]) :
    Asking own merging slot env (saveEntity entity find update) lk fun _ l ↦ Saved lk x l := by
  refine hfind.bind fun row l hl ↦ ?_
  subst hl
  cases row with
  | none => trivial
  | some reread =>
    simp only
    split
    · exact ⟨_, rfl, Or.inl rfl⟩
    · exact (hupdate reread).mono fun _ _ hl ↦ Or.inr hl

theorem saveCustomer_asking {c : Customer}
    (hx : MayAsk own merging slot env lk (.customer c.id, .noKeyUpdate)) :
    Asking own merging slot env (saveCustomer c) lk fun _ l ↦ Saved lk (.customer c.id, .noKeyUpdate) l :=
  saveEntity_asking (read_asking _ (fun _ ↦ rfl) _) fun _ ↦ update_asking _ (fun _ ↦ rfl) hx

theorem saveTransaction_asking {t : Transaction}
    (hx : MayAsk own merging slot env lk (.transaction t.id, .noKeyUpdate)) :
    Asking own merging slot env (saveTransaction t) lk
      fun _ l ↦ Saved lk (.transaction t.id, .noKeyUpdate) l :=
  saveEntity_asking (read_asking _ (fun _ ↦ rfl) _) fun _ ↦ update_asking _ (fun _ ↦ rfl) hx

theorem saveTenant_asking {t : Tenant}
    (hx : MayAsk own merging slot env lk (.tenant t.id, .noKeyUpdate)) :
    Asking own merging slot env (saveTenant t) lk fun _ l ↦ Saved lk (.tenant t.id, .noKeyUpdate) l :=
  saveEntity_asking (read_asking _ (fun _ ↦ rfl) _) fun _ ↦ update_asking _ (fun _ ↦ rfl) hx

theorem saveShift_asking {s : CashRegisterLog}
    (hx : MayAsk own merging slot env lk (.shift s.id, .noKeyUpdate)) :
    Asking own merging slot env (saveShift s) lk fun _ l ↦ Saved lk (.shift s.id, .noKeyUpdate) l :=
  saveEntity_asking (read_asking _ (fun _ ↦ rfl) _) fun _ ↦ update_asking _ (fun _ ↦ rfl) hx

/-- The save of a customer whose row is locked, and the commit. -/
theorem saving_finishing {c : Customer} {f : Unit → Script α}
    (hheld : (.customer c.id, .update) ∈ lk)
    (hf : ∀ l, lk ⊆ l → (∀ h, Below merging env h lk → Below merging env h l) →
      Finishing own merging slot env (f ()) l) :
    Finishing own merging slot env (saveCustomer c >>= f) lk := by
  refine (saveCustomer_asking (mayAsk_of_update trivial hheld)).finish fun _ l hl ↦ hf l hl.subset fun h hlk ↦ ?_
  refine hl.below hlk (Or.inr ?_)
  exact (hlk _ hheld).resolve_left id

theorem lockFound_asking {β : Type} (o : Sql) (found : Db → Option β) {x : LockName × LockMode}
    {Q : o.Ans → List (LockName × LockMode) → Prop}
    (hlocks : ∀ v, o.locks v = Sql.lockFound (found v) x.1 x.2)
    (hx : ∀ v b, v.Owned own → found v = some b → MayAsk own merging slot env lk x)
    (hfound : ∀ v b r ws, v.Owned own → found v = some b → o.exec v = .ok (r, ws) → Q r (lk ++ [x]))
    (hnone : ∀ v r ws, v.Owned own → found v = none → o.exec v = .ok (r, ws) → Q r lk) :
    Asking own merging slot env (query o) lk Q := by
  refine query_asking o fun v hv ↦ ?_
  rw [hlocks v]
  cases hfind : found v with
  | none =>
    refine ⟨fun y hy ↦ (List.not_mem_nil hy).elim, fun r ws hexec ↦ ?_⟩
    rw [show lk ++ Sql.lockFound (none : Option β) x.1 x.2 = lk from List.append_nil lk]
    exact hnone v r ws hv hfind hexec
  | some b =>
    exact ⟨fun y hy ↦ (List.mem_singleton.1 hy) ▸ hx v b hv hfind,
      fun r ws hexec ↦ hfound v b r ws hv hfind hexec⟩

/-- What the lock of a customer answers. -/
theorem queryCustomer_asking (tenantId id : Uuid)
    (hx : MayAsk own merging slot env lk (.customer id, .update)) :
    Asking own merging slot env (query (.lockCustomer tenantId id)) lk fun r l ↦
      match r with
      | none => l = lk
      | some c => c.id = id ∧ l = lk ++ [(.customer id, .update)] := by
  refine lockFound_asking (.lockCustomer tenantId id) (fun v ↦ v.customer tenantId id) (fun _ ↦ rfl)
    (fun _ _ _ _ ↦ hx)
    (fun v c r ws _ hfind hexec ↦ ?_) fun v r ws _ hfind hexec ↦ ?_
  · obtain rfl : v.customer tenantId id = r := congrArg Prod.fst (Except.ok.inj hexec)
    rw [hfind]
    exact ⟨Table.find_key (Option.filter_eq_some_iff.1 hfind).1, rfl⟩
  · obtain rfl : v.customer tenantId id = r := congrArg Prod.fst (Except.ok.inj hexec)
    rw [hfind]

theorem lockCustomer_asking (tenantId id : Uuid)
    (hx : MayAsk own merging slot env lk (.customer id, .update)) :
    Asking own merging slot env (lockCustomer tenantId id) lk fun c l ↦
      c.id = id ∧ l = lk ++ [(.customer id, .update)] := by
  refine (queryCustomer_asking tenantId id hx).bind fun row l hl ↦ ?_
  cases row with
  | none => trivial
  | some c => exact ⟨l, rfl, hl⟩

theorem queryTenant_asking (tenantId : Uuid)
    (hx : MayAsk own merging slot env lk (.tenant tenantId, .update)) :
    Asking own merging slot env (query (.lockTenant tenantId)) lk fun r l ↦
      ∀ t ∈ r, t.id = tenantId ∧ l = lk ++ [(.tenant tenantId, .update)] := by
  refine lockFound_asking (.lockTenant tenantId) (fun v ↦ v.tenants.find tenantId) (fun _ ↦ rfl)
    (fun _ _ _ _ ↦ hx)
    (fun v c r ws _ hfind hexec t ht ↦ ?_) fun v r ws _ hfind hexec t ht ↦ ?_
  · obtain rfl : v.tenants.find tenantId = r := congrArg Prod.fst (Except.ok.inj hexec)
    exact ⟨Table.find_key ht, rfl⟩
  · obtain rfl : v.tenants.find tenantId = r := congrArg Prod.fst (Except.ok.inj hexec)
    rw [Option.mem_def, hfind] at ht
    cases ht

/-- A transaction is inserted when only customers are locked, or under a generated key after another
insert of the tenant. -/
theorem insertTransaction_asking {row : Transaction} (hid : ∃ n, env.fresh n = row.id)
    (hkey : Named slot env (.transactionKey row.tenant_id row.idempotency_key, .update))
    (hcustomer : (.customer row.customer_id, .update) ∈ lk)
    (hlk : Below merging env (toLex (1, 0)) lk ∨ Below merging env (toLex (3, 0)) lk ∧
      (.tenant row.tenant_id, .keyShare) ∈ lk ∧ ∃ n, env.fresh n = row.idempotency_key) :
    Asking own merging slot env (insertTransaction row) lk fun _ l ↦
      lk ⊆ l ∧ Below merging env (toLex (3, 0)) l ∧ (.tenant row.tenant_id, .keyShare) ∈ l := by
  have hslots : Asking own merging slot env (query (.insertTransaction row)) lk fun _ l ↦
      lk ⊆ l ∧ Below merging env (toLex (3, 0)) l ∧
        ((.tenant row.tenant_id, .keyShare) ∈ l ∨ Below merging env (toLex (2, row.tenant_id)) l) := by
    refine query_asking (.insertTransaction row) fun v _ ↦ ⟨fun x hx ↦ ?_, fun _ _ _ ↦ ?_⟩
    · rcases List.mem_cons.1 hx with rfl | hx
      · exact mayAsk_of_idle (fun _ ↦ hid) hid
      · obtain rfl := List.mem_singleton.1 hx
        rcases hlk with hlow | ⟨-, -, hfresh⟩
        · exact mayAsk_of_below hkey hlow
        · exact mayAsk_of_idle hkey hfresh
    · have hnew : ∀ {h}, toLex (1, 0) < h → Below merging env h
          (Sql.locks (.insertTransaction row) v) := by
        intro h hlt y hy
        rcases List.mem_cons.1 hy with rfl | hy
        · exact Or.inl hid
        · obtain rfl := List.mem_singleton.1 hy
          exact Or.inr hlt
      refine ⟨List.subset_append_left _ _, ?_⟩
      rcases hlk with hlow | ⟨hlk, htenant, -⟩
      · exact ⟨(hlow.mono (low_lt (by decide)).le).append (hnew (low_lt (by decide))),
          Or.inr ((hlow.mono (low_lt (by decide)).le).append (hnew (low_lt (by decide))))⟩
      · exact ⟨hlk.append (hnew (low_lt (by decide))), Or.inl (List.mem_append_left _ htenant)⟩
  refine hslots.bind fun _ l ⟨hsub, hlow, htenant⟩ ↦ ?_
  refine query_asking _ fun v _ ↦ ⟨fun x hx ↦ ?_, fun _ _ _ ↦
    ⟨List.subset_append_of_subset_left _ hsub, hlow.append fun y hy ↦ ?_, ?_⟩⟩
  · obtain ⟨name, hname, rfl⟩ := List.mem_map.1 hx
    rcases List.mem_append.1 hname with hname | hname
    · simp only [List.mem_cons, List.not_mem_nil, or_false] at hname
      rcases hname with rfl | rfl | rfl
      · rcases htenant with hheld | hbelow
        · exact mayAsk_of_held trivial hheld (LockMode.covers_refl _)
        · exact mayAsk_of_below trivial hbelow
      · exact mayAsk_of_update trivial (hsub hcustomer)
      · exact mayAsk_of_idle rfl trivial
    · obtain ⟨id, -, rfl⟩ := Option.map_eq_some_iff.1 (Option.mem_toList.1 hname)
      exact mayAsk_of_idle nofun trivial
  · obtain ⟨name, hname, rfl⟩ := List.mem_map.1 hy
    rcases List.mem_append.1 hname with hname | hname
    · simp only [List.mem_cons, List.not_mem_nil, or_false] at hname
      rcases hname with rfl | rfl | rfl
      · exact Or.inr (low_lt (by decide))
      · exact Or.inr (low_lt (by decide))
      · exact Or.inl trivial
    · obtain ⟨id, -, rfl⟩ := Option.map_eq_some_iff.1 (Option.mem_toList.1 hname)
      exact Or.inl trivial
  · exact List.mem_append_right _ (List.mem_map.2 ⟨_, List.mem_cons_self, rfl⟩)

theorem lockTenant_asking (tenantId : Uuid)
    (hx : MayAsk own merging slot env lk (.tenant tenantId, .update)) :
    Asking own merging slot env (lockTenant tenantId) lk fun t l ↦
      t.id = tenantId ∧ l = lk ++ [(.tenant tenantId, .update)] := by
  refine (queryTenant_asking tenantId hx).bind fun row l hl ↦ ?_
  cases row with
  | none => trivial
  | some t => exact ⟨l, rfl, hl t rfl⟩

/-- A transaction inserted under the lock of its customer, and the customer saved. -/
theorem posting_finishing {row : Transaction} {c : Customer} {f : Unit → Script α}
    (hid : ∃ n, env.fresh n = row.id)
    (hkey : Named slot env (.transactionKey row.tenant_id row.idempotency_key, .update))
    (hcustomer : row.customer_id = c.id)
    (hheld : (.customer c.id, .update) ∈ lk)
    (hlk : Below merging env (toLex (1, 0)) lk ∨ Below merging env (toLex (3, 0)) lk ∧
      (.tenant row.tenant_id, .keyShare) ∈ lk ∧ ∃ n, env.fresh n = row.idempotency_key)
    (hf : ∀ l, lk ⊆ l → Below merging env (toLex (3, 0)) l → (.tenant row.tenant_id, .keyShare) ∈ l →
      Finishing own merging slot env (f ()) l) :
    Finishing own merging slot env (insertTransaction row >>= fun _ ↦ saveCustomer c >>= f) lk := by
  refine (insertTransaction_asking hid hkey (hcustomer ▸ hheld) hlk).finish fun _ l ⟨hsub, hlow, htenant⟩ ↦ ?_
  refine saving_finishing (hsub hheld) fun l' hsub' hlow' ↦ ?_
  exact hf l' (List.Subset.trans hsub hsub') (hlow' _ hlow) (hsub' htenant)

end Rules

/-! ## Money -/

/-- The first lock of a session. -/
theorem mayAsk_nil (hx : Named slot env x) : MayAsk own merging slot env [] x :=
  mayAsk_of_below hx below_nil

theorem below_customer (id : Uuid) (m : LockMode) :
    Below merging env (toLex (1, 0)) ([] ++ [(.customer id, m)]) :=
  below_singleton (Or.inr (low_lt (by decide)))

/-- A session that looks up its key first. -/
theorem keyed_finishing (tenantId key : Uuid) {found : Transaction → Script α} {new : Script α}
    (hfound : ∀ t, Finishing own merging slot env (found t) [])
    (hnew : Finishing own merging slot env new []) :
    Finishing own merging slot env (findByIdempotencyKey tenantId key >>= fun row ↦ match row with
      | some t => found t
      | none => new) [] := by
  refine (read_asking (.findTransactionByKey tenantId key) (fun _ ↦ rfl) []).finish fun row l hl ↦ ?_
  subst hl
  cases row with
  | some t => exact hfound t
  | none => exact hnew

theorem registerDebt_finishing (tenantId userId : Uuid) (dto : CreateTransactionDto)
    (hslot : slot = some (tenantId, dto.idempotency_key)) :
    Finishing own merging slot env (registerDebt env tenantId userId dto) [] := by
  refine keyed_finishing tenantId dto.idempotency_key (fun _ ↦ trivial) ?_
  refine (lockCustomer_asking tenantId dto.customer_id (mayAsk_nil trivial)).finish fun c l ⟨hc, hl⟩ ↦ ?_
  subst hl
  dsimp only
  split
  · trivial
  split
  · trivial
  · exact posting_finishing ⟨0, rfl⟩ (Or.inl hslot) hc.symm (hc ▸ List.mem_singleton.2 rfl)
      (Or.inl (below_customer _ _)) fun _ _ _ _ ↦ trivial

theorem registerPayment_finishing (tenantId userId : Uuid) (dto : CreatePaymentDto)
    (hslot : slot = some (tenantId, dto.idempotency_key)) :
    Finishing own merging slot env (registerPayment env tenantId userId dto) [] := by
  refine keyed_finishing tenantId dto.idempotency_key (fun _ ↦ trivial) ?_
  refine (lockCustomer_asking tenantId dto.customer_id (mayAsk_nil trivial)).finish fun c l ⟨hc, hl⟩ ↦ ?_
  subst hl
  dsimp only
  split
  · trivial
  · exact posting_finishing ⟨0, rfl⟩ (Or.inl hslot) hc.symm (hc ▸ List.mem_singleton.2 rfl)
      (Or.inl (below_customer _ _)) fun _ _ _ _ ↦ trivial

theorem forgiveDebt_finishing (tenantId userId : Uuid) (dto : ForgiveDebtDto)
    (hslot : slot = some (tenantId, dto.idempotency_key)) :
    Finishing own merging slot env (forgiveDebt env tenantId userId dto) [] := by
  refine keyed_finishing tenantId dto.idempotency_key (fun _ ↦ trivial) ?_
  refine (lockCustomer_asking tenantId dto.customer_id (mayAsk_nil trivial)).finish fun c l ⟨hc, hl⟩ ↦ ?_
  subst hl
  split
  · trivial
  · exact posting_finishing ⟨0, rfl⟩ (Or.inl hslot) hc.symm (hc ▸ List.mem_singleton.2 rfl)
      (Or.inl (below_customer _ _)) fun _ _ _ _ ↦ trivial

/-- The second row of a mixed payment has a generated key. -/
theorem registerMixedPayment_finishing (tenantId userId : Uuid) (dto : CreateMixedPaymentDto)
    (hslot : slot = some (tenantId, dto.idempotency_key)) :
    Finishing own merging slot env (registerMixedPayment env tenantId userId dto) [] := by
  have hreplay : ∀ t, Finishing own merging slot env
      (Prog.commitTransaction >>= fun _ ↦ replayMixedPayment t) [] := by
    intro t
    change (replayMixedPayment t).Locks _ _ _ _ none
    unfold replayMixedPayment
    split
    · exact fun v _ ↦ ⟨rfl, fun r ws _ ↦ trivial⟩
    · trivial
  unfold registerMixedPayment
  dsimp only
  split
  · trivial
  refine keyed_finishing tenantId dto.idempotency_key hreplay ?_
  refine (lockCustomer_asking tenantId dto.customer_id (mayAsk_nil trivial)).finish fun c l ⟨hc, hl⟩ ↦ ?_
  subst hl
  split
  · trivial
  have hheld : (LockName.customer dto.customer_id, LockMode.update) ∈
      ([] ++ [(.customer dto.customer_id, .update)] : List (LockName × LockMode)) :=
    List.mem_singleton.2 rfl
  refine (insertTransaction_asking ⟨1, rfl⟩ (Or.inl hslot) hheld (Or.inl (below_customer _ _))).finish
    fun _ l ⟨hsub, hlow, htenant⟩ ↦ ?_
  exact posting_finishing ⟨2, rfl⟩ (Or.inr ⟨3, rfl⟩) hc.symm (hc ▸ hsub hheld) (Or.inr ⟨hlow, htenant, 3, rfl⟩)
    fun _ _ _ _ ↦ trivial

/-- A reversal updates its original last. -/
theorem reverseTransaction_finishing (tenantId userId transactionId : Uuid)
    (dto : ReverseTransactionDto) (hslot : slot = some (tenantId, dto.idempotency_key)) :
    Finishing own merging slot env (reverseTransaction env tenantId userId transactionId dto) [] := by
  refine keyed_finishing tenantId dto.idempotency_key (fun _ ↦ trivial) ?_
  refine (read_asking (.findTransaction tenantId transactionId) (fun _ ↦ rfl) []).finish fun row l hl ↦ ?_
  subst hl
  cases row with
  | none => trivial
  | some original =>
    dsimp only
    split
    · trivial
    refine (lockCustomer_asking tenantId original.customer_id (mayAsk_nil trivial)).finish
      fun c l ⟨hc, hl⟩ ↦ ?_
    subst hl
    refine posting_finishing ⟨0, rfl⟩ (Or.inl hslot) hc.symm (hc ▸ List.mem_singleton.2 rfl)
      (Or.inl (below_customer _ _)) fun l _ hlow _ ↦ ?_
    refine (saveTransaction_asking (mayAsk_of_below (named_update _) (hlow.mono ?_))).finish fun _ _ _ ↦ trivial
    exact (low_lt (by decide)).le

/-! ## Many rows -/

/-- Rows of one kind are locked one after the other: those locked so far come before the ids that
are left, and everything else stands below the kind. -/
def Ladder (merging : Bool) (env : Env) (name : Uuid → LockName) (mode : LockMode) (k : ℕ)
    (lk : List (LockName × LockMode)) (ids : List Uuid) : Prop :=
  ∀ y ∈ lk, Idle env y ∨ heightOf merging y.1 < toLex (k, 0) ∨
    ∃ id, y = (name id, mode) ∧ ∀ id' ∈ ids, id ≤ id'

section Ladders

variable {name : Uuid → LockName} {mode : LockMode} {k : ℕ} {id : Uuid} {ids : List Uuid}

theorem ladder_of_below (hlk : Below merging env (toLex (k, 0)) lk) :
    Ladder merging env name mode k lk ids :=
  fun y hy ↦ (hlk y hy).imp id Or.inl

theorem Ladder.mayAsk (hx : Named slot env (name id, mode))
    (hname : heightOf merging ∘ name = fun id ↦ toLex (k, id))
    (hlk : Ladder merging env name mode k lk (id :: ids)) :
    MayAsk own merging slot env lk (name id, mode) := by
  have hheight : ∀ id, heightOf merging (name id) = toLex (k, id) := congrFun hname
  by_cases hheld : (name id, mode) ∈ lk
  · exact mayAsk_of_held hx hheld (LockMode.covers_refl _)
  refine mayAsk_of_below hx fun y hy ↦ ?_
  rw [hheight]
  rcases hlk y hy with hidle | hlow | ⟨id', rfl, hle⟩
  · exact Or.inl hidle
  · refine Or.inr (hlow.trans_le ?_)
    exact Prod.Lex.toLex_mono (Prod.mk_le_mk.2 ⟨le_refl k, Nat.zero_le id⟩)
  · refine Or.inr ?_
    rw [hheight]
    refine high_lt (lt_of_le_of_ne (hle id List.mem_cons_self) fun heq ↦ hheld ?_)
    exact heq ▸ hy

/-- The next row is locked, or passed by. -/
theorem Ladder.next (hlk : Ladder merging env name mode k lk (id :: ids))
    (hle : ∀ id' ∈ ids, id ≤ id')
    (hl : ∀ y ∈ l, y ∈ lk ∨ y = (name id, mode) ∨ Idle env y ∨ heightOf merging y.1 < toLex (k, 0)) :
    Ladder merging env name mode k l ids := by
  intro y hy
  rcases hl y hy with hold | rfl | hidle | hlow
  · refine (hlk y hold).imp_right (Or.imp_right ?_)
    rintro ⟨id', rfl, hbefore⟩
    exact ⟨id', rfl, fun id'' hid'' ↦ hbefore id'' (List.mem_cons_of_mem _ hid'')⟩
  · exact Or.inr (Or.inr ⟨id, rfl, hle⟩)
  · exact Or.inl hidle
  · exact Or.inr (Or.inl hlow)

/-- Such rows locked by an `UPDATE`. -/
theorem Ladder.update (o : Sql) {found : Db → Option β}
    (hlocks : ∀ v, o.locks v = Sql.lockFound (found v) (name id) mode)
    (hx : Named slot env (name id, mode))
    (hname : heightOf merging ∘ name = fun id ↦ toLex (k, id))
    (hlk : Ladder merging env name mode k lk (id :: ids)) (hle : ∀ id' ∈ ids, id ≤ id') :
    Asking own merging slot env (query o) lk fun _ l ↦
      Ladder merging env name mode k l ids ∧ lk ⊆ l ∧ ∀ y ∈ l, y ∈ lk ∨ y = (name id, mode) := by
  refine lockFound_asking (x := (name id, mode)) o found hlocks (fun _ _ _ _ ↦ hlk.mayAsk hx hname)
    (fun v b r ws _ _ _ ↦ ?_) fun v r ws _ _ _ ↦ ?_
  · have hl : ∀ y ∈ lk ++ [(name id, mode)], y ∈ lk ∨ y = (name id, mode) :=
      fun y hy ↦ (List.mem_append.1 hy).imp_right List.mem_singleton.1
    exact ⟨hlk.next hle fun y hy ↦ (hl y hy).imp_right Or.inl, List.subset_append_left _ _, hl⟩
  · exact ⟨hlk.next hle fun y hy ↦ Or.inl hy, List.Subset.refl _, fun y hy ↦ Or.inl hy⟩

end Ladders

/-- The database answers the rows of a statement in the order of their identifiers. -/
def Sorts (env : Env) : Prop := ∀ ids, (env.scan ids).Pairwise (· ≤ ·)

section Bulk

variable {ids : List Uuid}

theorem markCustomers_asking (hids : ids.Pairwise (· ≤ ·))
    (hlk : Ladder merging env .customer .noKeyUpdate 0 lk ids) :
    Asking own merging slot env (markCustomers ids) lk fun _ _ ↦ True := by
  induction ids generalizing lk with
  | nil => exact ⟨lk, rfl, trivial⟩
  | cons id ids ih =>
    obtain ⟨hle, hids⟩ := List.pairwise_cons.1 hids
    refine (hlk.update (.markOverdue id) (fun _ ↦ rfl) trivial rfl hle).bind fun _ l ⟨hl, _⟩ ↦ ?_
    exact ih hids hl

theorem blockEach_asking (rule : BlockRule) (hids : ids.Pairwise (· ≤ ·))
    (hlk : Ladder merging env .customer .noKeyUpdate 0 lk ids) :
    Asking own merging slot env (blockEach rule ids) lk fun _ _ ↦ True := by
  induction ids generalizing lk with
  | nil => exact ⟨lk, rfl, trivial⟩
  | cons id ids ih =>
    obtain ⟨hle, hids⟩ := List.pairwise_cons.1 hids
    refine (hlk.update (.blockCustomer rule id) (fun _ ↦ rfl) trivial rfl hle).bind fun _ l ⟨hl, _⟩ ↦ ?_
    exact ih hids hl

theorem suspendTenants_asking {tenants : List Tenant}
    (hids : (tenants.map (·.id)).Pairwise (· ≤ ·))
    (hlk : Ladder merging env .tenant .noKeyUpdate 2 lk (tenants.map (·.id))) :
    Asking own merging slot env (suspendTenants tenants) lk fun _ _ ↦ True := by
  induction tenants generalizing lk with
  | nil => exact ⟨lk, rfl, trivial⟩
  | cons t tenants ih =>
    obtain ⟨hle, hids⟩ := List.pairwise_cons.1 hids
    refine (saveTenant_asking (t := { t with status := .SUSPENDED }) (hlk.mayAsk trivial rfl)).bind
      fun _ l hl ↦ ih hids (hlk.next hle fun y hy ↦ ?_)
    rcases hl with rfl | rfl
    · exact Or.inl hy
    · exact (List.mem_append.1 hy).imp_right fun hnew ↦ Or.inl (List.mem_singleton.1 hnew)

/-- A batch locks all customers before it inserts anything. -/
theorem lockCustomers_asking (tenantId : Uuid) (hids : ids.Pairwise (· ≤ ·))
    (hlk : Ladder merging env .customer .update 0 lk ids) :
    Asking own merging slot env (lockCustomers tenantId ids) lk fun cs l ↦
      lk ⊆ l ∧ (∀ y ∈ l, y ∈ lk ∨ ∃ id, y = (.customer id, .update)) ∧
        ∀ c ∈ cs, (.customer c.id, .update) ∈ l := by
  induction ids generalizing lk with
  | nil => exact ⟨lk, rfl, List.Subset.refl _, fun _ hy ↦ Or.inl hy, fun _ hc ↦ (List.not_mem_nil hc).elim⟩
  | cons id ids ih =>
    obtain ⟨hle, hids⟩ := List.pairwise_cons.1 hids
    refine (queryCustomer_asking tenantId id (hlk.mayAsk trivial rfl)).bind fun row l hl ↦ ?_
    cases row with
    | none =>
      subst hl
      refine (ih hids (hlk.next hle fun y hy ↦ Or.inl hy)).bind fun rows l' hl' ↦ ⟨l', rfl, hl'⟩
    | some c =>
      obtain ⟨hc, rfl⟩ := hl
      have hnew : ∀ y ∈ lk ++ [(.customer id, .update)], y ∈ lk ∨ y = (.customer id, .update) :=
        fun y hy ↦ (List.mem_append.1 hy).imp_right List.mem_singleton.1
      refine (ih hids (hlk.next hle fun y hy ↦ (hnew y hy).imp_right Or.inl)).bind
        fun rows l' ⟨hsub, honly, hheld⟩ ↦ ⟨l', rfl, ?_, fun y hy ↦ ?_, fun c' hc' ↦ ?_⟩
      · exact List.Subset.trans (List.subset_append_left _ _) hsub
      · rcases honly y hy with hold | hcustomer
        · exact (hnew y hold).imp_right fun heq ↦ ⟨id, heq⟩
        · exact Or.inr hcustomer
      · rcases List.mem_append.1 hc' with hc' | hc'
        · obtain rfl : c = c' := Option.some.inj (Option.mem_toList.1 hc')
          exact hsub (List.mem_append_right _ (hc ▸ List.mem_singleton.2 rfl))
        · exact hheld c' hc'

theorem adjustDebtors_asking (tenantId userId : Uuid) (dto : InflationAdjustmentDto)
    {debtors : List Customer} (hheld : ∀ c ∈ debtors, (.customer c.id, .update) ∈ lk) (index : ℕ)
    (total : ℤ)
    (hlk : Below merging env (toLex (1, 0)) lk ∨ Below merging env (toLex (3, 0)) lk ∧
      (.tenant tenantId, .keyShare) ∈ lk) :
    Asking own merging slot env (adjustDebtors env tenantId userId dto index debtors total) lk
      fun _ l ↦ Below merging env (toLex (3, 0)) l := by
  induction debtors generalizing lk index total with
  | nil =>
    refine ⟨lk, rfl, ?_⟩
    exact hlk.elim (fun hlow ↦ hlow.mono (low_lt (by decide)).le) And.left
  | cons c debtors ih =>
    have hrest : ∀ c ∈ debtors, (.customer c.id, .update) ∈ lk :=
      fun c hc ↦ hheld c (List.mem_cons_of_mem _ hc)
    have hc := hheld c List.mem_cons_self
    rw [adjustDebtors]
    split
    · exact ih hrest _ _ hlk
    have hready : Below merging env (toLex (1, 0)) lk ∨ Below merging env (toLex (3, 0)) lk ∧
        (.tenant tenantId, .keyShare) ∈ lk ∧ ∃ n, env.fresh n = env.fresh (2 * index + 1) :=
      hlk.imp_right fun hlk ↦ ⟨hlk.1, hlk.2, _, rfl⟩
    refine (insertTransaction_asking ⟨2 * index, rfl⟩ (Or.inr ⟨_, rfl⟩) hc hready).bind fun _ l hl ↦ ?_
    obtain ⟨hsub, hlow, htenant⟩ := hl
    refine (saveCustomer_asking (c := { c with
      balance_cents := c.balance_cents + adjustmentOf dto c.balance_cents })
        (mayAsk_of_update trivial (hsub hc))).bind fun _ l' hl' ↦ ?_
    refine ih (fun c hc ↦ hl'.subset (hsub (hrest c hc))) _ _ (Or.inr ⟨?_, hl'.subset htenant⟩)
    exact hl'.below hlow (Or.inr (low_lt (by decide)))

theorem applyInflationAdjustment_finishing (hsorts : Sorts env) (tenantId userId : Uuid)
    (dto : InflationAdjustmentDto) :
    Finishing own merging slot env (applyInflationAdjustment env tenantId userId dto) [] := by
  refine (read_asking (.findBatch tenantId dto.idempotency_key) (fun _ ↦ rfl) []).finish
    fun found l hl ↦ ?_
  subst hl
  cases found with
  | some batch => trivial
  | none =>
    refine (read_asking (.selectCustomers tenantId) (fun _ ↦ rfl) []).finish fun ids l hl ↦ ?_
    subst hl
    refine (lockCustomers_asking tenantId (hsorts ids) (ladder_of_below below_nil)).finish
      fun customers l ⟨_, honly, hheld⟩ ↦ ?_
    have hlow : Below merging env (toLex (1, 0)) l := by
      intro y hy
      obtain ⟨id, rfl⟩ := (honly y hy).resolve_left List.not_mem_nil
      exact Or.inr (low_lt (by decide))
    refine (adjustDebtors_asking tenantId userId dto (fun c hc ↦ hheld c (List.mem_filter.1 hc).1)
      0 0 (Or.inl hlow)).finish fun total l hl ↦ ?_
    have hbatch : Asking own merging slot env (query (.insertBatch (batchRow env tenantId dto
        (customers.filter fun c ↦ c.balance_cents > 0).length total))) l fun _ _ ↦ True := by
      refine query_asking _ fun v _ ↦ ⟨fun x hx ↦ ?_, fun _ _ _ ↦ trivial⟩
      simp only [Sql.locks, List.mem_cons, List.not_mem_nil, or_false] at hx
      rcases hx with rfl | rfl
      · exact mayAsk_of_below trivial (hl.mono (low_lt (by decide)).le)
      · exact mayAsk_of_below trivial (hl.mono (low_lt (by decide)).le)
    exact hbatch.finish fun _ _ _ ↦ trivial

end Bulk

/-! ## Texts of identifiers -/

/-- A UUID written in lower case. -/
def Plain (text : UuidText) : Prop := text.capitals = 0 ∧ text.value < 16 ^ 32

instance (text : UuidText) : Decidable (Plain text) := inferInstanceAs (Decidable (_ ∧ _))

/-- The character of a digit, in lower case. -/
def digitChar (digit : ℕ) : ℕ := if digit < 10 then 48 + digit else 87 + digit

theorem digitChar_lt {d d' : ℕ} : digitChar d < digitChar d' ↔ d < d' := by
  unfold digitChar
  split <;> split <;> omega

theorem digitChar_inj {d d' : ℕ} : digitChar d = digitChar d' ↔ d = d' := by
  unfold digitChar
  split <;> split <;> omega

theorem chars_of_plain {text : UuidText} (h : Plain text) :
    text.chars = (List.range 32).reverse.map fun k ↦ digitChar (text.value / 16 ^ k % 16) := by
  unfold UuidText.chars
  refine List.map_congr_left fun k _ ↦ ?_
  rw [h.1, Nat.zero_testBit, digitChar]
  rfl

/-- The texts of the last `n` digits are ordered as the digits are. -/
theorem digits_lt (n a b : ℕ) :
    ((List.range n).reverse.map fun k ↦ digitChar (a / 16 ^ k % 16)) <
        ((List.range n).reverse.map fun k ↦ digitChar (b / 16 ^ k % 16)) ↔
      a % 16 ^ n < b % 16 ^ n := by
  induction n with
  | zero => simp [Nat.mod_one]
  | succ n ih =>
    rw [List.range_succ, List.reverse_append, List.reverse_singleton, List.singleton_append,
      List.map_cons, List.map_cons, List.cons_lt_cons_iff, ih, digitChar_lt, digitChar_inj,
      Nat.mod_pow_succ, Nat.mod_pow_succ]
    have ha : a % 16 ^ n < 16 ^ n := Nat.mod_lt _ (by positivity)
    have hb : b % 16 ^ n < 16 ^ n := Nat.mod_lt _ (by positivity)
    generalize a / 16 ^ n % 16 = x
    generalize b / 16 ^ n % 16 = y
    constructor
    · rintro (hlt | ⟨rfl, hlt⟩)
      · have : 16 ^ n * (x + 1) ≤ 16 ^ n * y := Nat.mul_le_mul_left _ hlt
        rw [Nat.mul_add, Nat.mul_one] at this
        omega
      · omega
    · intro hlt
      rcases Nat.lt_trichotomy x y with hxy | rfl | hyx
      · exact Or.inl hxy
      · exact Or.inr ⟨rfl, by omega⟩
      · have : 16 ^ n * (y + 1) ≤ 16 ^ n * x := Nat.mul_le_mul_left _ hyx
        rw [Nat.mul_add, Nat.mul_one] at this
        omega

/-- Plain texts are compared as the identifiers are. -/
theorem chars_lt_iff {a b : UuidText} (ha : Plain a) (hb : Plain b) :
    a.chars < b.chars ↔ a.value < b.value := by
  rw [chars_of_plain ha, chars_of_plain hb, digits_lt, Nat.mod_eq_of_lt ha.2, Nat.mod_eq_of_lt hb.2]

theorem value_ne_of_chars {a b : UuidText} (ha : Plain a) (hb : Plain b) (hne : a.chars ≠ b.chars) :
    a.value ≠ b.value := by
  intro heq
  rw [chars_of_plain ha, chars_of_plain hb, heq] at hne
  exact hne rfl

/-! ## Customers -/

theorem rejectDuplicate_asking (value : Option String) {find : String → Script (Option Customer)}
    (hfind : ∀ v, Asking own merging slot env (find v) lk fun _ l ↦ l = lk) (message : String) :
    Asking own merging slot env (rejectDuplicate value find message) lk fun _ l ↦ l = lk := by
  cases value with
  | none => exact ⟨lk, rfl, rfl⟩
  | some v =>
    refine (hfind v).bind fun row l hl ↦ ?_
    cases row with
    | none => exact ⟨l, rfl, hl⟩
    | some c => trivial

theorem createCustomer_finishing (tenantId : Uuid) (dto : CreateCustomerDto) :
    Finishing own merging slot env (createCustomer env tenantId dto) [] := by
  have hslots : ∀ c : Customer, Asking own merging slot env (query (.insertCustomer c)) [] fun _ l ↦
      Below merging env (toLex (2, tenantId)) l := by
    refine fun c ↦ query_asking (.insertCustomer c) fun v _ ↦ ⟨fun x hx ↦ ?_, fun _ _ _ y hy ↦ ?_⟩
    · rcases List.mem_cons.1 hx with rfl | hx
      · exact mayAsk_nil trivial
      · obtain ⟨key, -, rfl⟩ := Option.map_eq_some_iff.1 (Option.mem_toList.1 hx)
        exact mayAsk_nil trivial
    · rcases List.mem_cons.1 hy with rfl | hy
      · exact Or.inr (low_lt (by decide))
      · obtain ⟨key, -, rfl⟩ := Option.map_eq_some_iff.1 (Option.mem_toList.1 hy)
        exact Or.inr (low_lt (by decide))
  have hnew : Finishing own merging slot env ((rejectDuplicate (truthy dto.phone)
      (fun phone ↦ query (.findCustomerByPhone tenantId none phone))
      "Ya existe un cliente con ese teléfono en tu comercio" : Script Unit) >>= fun _ ↦
      rejectDuplicate (truthy dto.dni) (fun dni ↦ query (.findCustomerByDni tenantId none dni))
        "Ya existe un cliente con ese DNI en tu comercio" >>= fun _ ↦
      query (.insertCustomer (newCustomer env tenantId dto)) >>= fun _ ↦
      query (.keyShare [.tenant tenantId]) >>= fun _ ↦
      Prog.commitTransaction >>= fun _ ↦
      (pure (newCustomer env tenantId dto) : Script Customer)) [] := by
    refine (rejectDuplicate_asking _ (fun _ ↦ read_asking _ (fun _ ↦ rfl) _) _).finish
      fun _ l hl ↦ ?_
    subst hl
    refine (rejectDuplicate_asking _ (fun _ ↦ read_asking _ (fun _ ↦ rfl) _) _).finish
      fun _ l hl ↦ ?_
    subst hl
    refine (hslots _).finish fun _ l hl ↦ ?_
    exact (update_asking (.keyShare [.tenant tenantId]) (fun _ ↦ rfl) (mayAsk_of_below trivial hl)).finish
      fun _ _ _ ↦ trivial
  cases hkey : dto.idempotency_key with
  | none =>
    simp only [createCustomer, hkey]
    exact hnew
  | some key =>
    simp only [createCustomer, hkey]
    refine (read_asking (.findCustomerByKey tenantId key) (fun _ ↦ rfl) []).finish fun row l hl ↦ ?_
    subst hl
    cases row with
    | some existing => trivial
    | none => exact hnew

theorem findCustomerOrFail_asking (tenantId customerId : Uuid) (lk : List (LockName × LockMode)) :
    Asking own merging slot env (findCustomerOrFail tenantId customerId) lk fun _ l ↦ l = lk := by
  refine (read_asking (.findCustomer tenantId customerId) (fun _ ↦ rfl) lk).bind fun row l hl ↦ ?_
  cases row with
  | none => trivial
  | some c => exact ⟨l, rfl, hl⟩

/-- An edit saves one customer, whose row is the only one that it locks. -/
theorem saveCustomerAlone_finishing (c : Customer) :
    Finishing own merging slot env (saveCustomerAlone c) [] :=
  (saveCustomer_asking (mayAsk_nil trivial)).finish fun _ _ _ ↦ trivial

theorem saveAssignedAlone_finishing (c : AssignedCustomer) :
    Finishing own merging slot env (saveAssignedAlone c) [] := by
  refine (read_asking (.rereadCustomer c.loaded) (fun _ ↦ rfl) []).finish fun row l hl ↦ ?_
  subst hl
  cases row with
  | none => trivial
  | some reread =>
    dsimp only
    split
    · trivial
    · exact (update_asking (.updateCustomer (c.compared reread) reread) (fun _ ↦ rfl)
        (mayAsk_nil trivial)).finish fun _ _ _ ↦ trivial

theorem updateCustomer_finishing (tenantId customerId : Uuid) (dto : UpdateCustomerDto) :
    Finishing own merging slot env (updateCustomer tenantId customerId dto) [] := by
  refine (findCustomerOrFail_asking tenantId customerId []).finish fun c l hl ↦ ?_
  subst hl
  refine (rejectDuplicate_asking _ (fun _ ↦ read_asking _ (fun _ ↦ rfl) _) _).finish fun _ l hl ↦ ?_
  subst hl
  refine (rejectDuplicate_asking _ (fun _ ↦ read_asking _ (fun _ ↦ rfl) _) _).finish fun _ l hl ↦ ?_
  subst hl
  refine (rejectDuplicate_asking _ (fun _ ↦ read_asking _ (fun _ ↦ rfl) _) _).finish fun _ l hl ↦ ?_
  subst hl
  split
  · trivial
  · exact saveAssignedAlone_finishing _

theorem updateCreditLimit_finishing (tenantId customerId : Uuid) (dto : UpdateCreditLimitDto) :
    Finishing own merging slot env (updateCreditLimit tenantId customerId dto) [] := by
  refine (lockCustomer_asking tenantId customerId (mayAsk_nil trivial)).finish fun c l ⟨hc, hl⟩ ↦ ?_
  subst hl
  exact saving_finishing (hc ▸ List.mem_singleton.2 rfl) fun _ _ _ ↦ trivial

theorem lockMerged_asking (tenantId : Uuid) (dto : MergeCustomersDto) (id : UuidText)
    (hx : MayAsk own merging slot env lk (.customer id.value, .update)) :
    Asking own merging slot env (lockMerged tenantId dto id) lk fun c l ↦
      c.id = id.value ∧ l = lk ++ [(.customer id.value, .update)] := by
  refine (queryCustomer_asking tenantId id.value hx).bind fun row l hl ↦ ?_
  cases row with
  | none => trivial
  | some c => exact ⟨l, rfl, hl⟩

/-- The rows that a merge moves are locked in order, each with the customer that it moves to. -/
theorem moveTransactions_asking (tenantId secondaryId primaryId : Uuid) {ids : List Uuid}
    (hids : ids.Pairwise (· ≤ ·)) (hprimary : (.customer primaryId, .update) ∈ lk)
    (hlk : Ladder true env .transaction .noKeyUpdate 4 lk ids) :
    Asking own true slot env (moveTransactions tenantId secondaryId primaryId ids) lk
      fun _ l ↦ lk ⊆ l := by
  induction ids generalizing lk with
  | nil => exact ⟨lk, rfl, List.Subset.refl _⟩
  | cons id ids ih =>
    obtain ⟨hle, hids⟩ := List.pairwise_cons.1 hids
    have hmove : Asking own true slot env (query (.moveTransaction tenantId secondaryId primaryId id)) lk
        fun _ l ↦ lk ⊆ l ∧ Ladder true env .transaction .noKeyUpdate 4 l ids := by
      refine query_asking _ fun v _ ↦ ⟨fun x hx ↦ ?_, fun _ _ _ ↦ ⟨List.subset_append_left _ _, ?_⟩⟩
      · simp only [Sql.locks] at hx
        split at hx
        · simp only [List.mem_cons, List.not_mem_nil, or_false] at hx
          rcases hx with rfl | rfl
          · exact hlk.mayAsk (named_update id) rfl
          · exact mayAsk_of_update trivial hprimary
        · cases hx
      · refine hlk.next hle fun y hy ↦ ?_
        rcases List.mem_append.1 hy with hy | hy
        · exact Or.inl hy
        simp only [Sql.locks] at hy
        split at hy
        · simp only [List.mem_cons, List.not_mem_nil, or_false] at hy
          rcases hy with rfl | rfl
          · exact Or.inr (Or.inl rfl)
          · exact Or.inr (Or.inr (Or.inr (low_lt (by decide))))
        · cases hy
    refine hmove.bind fun _ l hl ↦ ?_
    obtain ⟨hsub, hl⟩ := hl
    exact (ih hids (hsub hprimary) hl).mono fun _ _ hl' ↦ List.Subset.trans hsub hl'

theorem mergeCustomers_finishing (hsorts : Sorts env) (tenantId : Uuid) {dto : MergeCustomersDto}
    (hprimary : Plain dto.primary_id) (hsecondary : Plain dto.secondary_id) :
    Finishing own true slot env (mergeCustomers env tenantId dto) [] := by
  unfold mergeCustomers
  dsimp only
  split
  · trivial
  rename_i hne
  generalize hids : (if dto.primary_id.chars < dto.secondary_id.chars
    then (dto.primary_id, dto.secondary_id) else (dto.secondary_id, dto.primary_id)) = ids
  have hlt : ids.1.value < ids.2.value := by
    have hvalue := value_ne_of_chars hprimary hsecondary hne
    rw [← hids]
    split
    · rename_i hchars
      exact (chars_lt_iff hprimary hsecondary).1 hchars
    · rename_i hchars
      rw [chars_lt_iff hprimary hsecondary] at hchars
      exact lt_of_le_of_ne (Nat.not_lt.1 hchars) (Ne.symm hvalue)
  refine (lockMerged_asking tenantId dto ids.1 (mayAsk_nil trivial)).finish fun first l ⟨hfirst, hl⟩ ↦ ?_
  subst hl
  have habove : MayAsk own true slot env ([] ++ [(.customer ids.1.value, .update)])
      (.customer ids.2.value, .update) :=
    mayAsk_of_below trivial (below_singleton (Or.inr (high_lt hlt)))
  refine (lockMerged_asking tenantId dto ids.2 habove).finish fun second l ⟨hsecond, hl⟩ ↦ ?_
  subst hl
  generalize hl : ([] ++ [(LockName.customer ids.1.value, LockMode.update)] ++
    [(.customer ids.2.value, .update)] : List (LockName × LockMode)) = l
  have hheld : ∀ (p : Prop) [Decidable p],
      (.customer (if p then first else second).id, .update) ∈ l := by
    intro p _
    rw [← hl]
    split
    · rw [hfirst]
      exact List.mem_append_left _ (List.mem_singleton.2 rfl)
    · rw [hsecond]
      exact List.mem_append_right _ (List.mem_singleton.2 rfl)
  have hheld' : ∀ (p : Prop) [Decidable p],
      (.customer (if p then second else first).id, .update) ∈ l := by
    intro p _
    rw [← ite_not]
    exact hheld (¬p)
  have hlow : Below true env (toLex (4, 0)) l := by
    have hcustomer : ∀ id, heightOf true (.customer id) < toLex (4, 0) :=
      fun id ↦ low_lt (by decide)
    rw [← hl]
    exact (below_singleton (Or.inr (hcustomer _))).append (below_singleton (Or.inr (hcustomer _)))
  refine (read_asking (.selectTransactionsOf tenantId _) (fun _ ↦ rfl) l).finish fun rows l' hl' ↦ ?_
  subst hl'
  refine (moveTransactions_asking tenantId _ _ (hsorts rows) (hheld _)
    (ladder_of_below hlow)).finish fun _ l hsub ↦ ?_
  refine saving_finishing (hsub (hheld _)) fun l' hsub' _ ↦ ?_
  exact saving_finishing (hsub' (hsub (hheld' _))) fun _ _ _ ↦ trivial

/-! ## Shifts, tenants and jobs -/

theorem openTurn_finishing (tenantId userId : Uuid) (dto : OpenTurnDto) :
    Finishing own merging slot env (openTurn env tenantId userId dto) [] := by
  refine (lockTenant_asking tenantId (mayAsk_nil trivial)).finish fun t l ⟨ht, hl⟩ ↦ ?_
  subst hl
  dsimp only
  split
  · trivial
  have hlow : Below merging env (toLex (3, 0)) ([] ++ [(.tenant tenantId, .update)]) :=
    below_singleton (Or.inr (low_lt (by decide)))
  refine (update_asking (.insertShift (shiftRow env tenantId userId dto)) (fun _ ↦ rfl)
    (mayAsk_of_below trivial hlow)).finish fun _ l hl ↦ ?_
  have hheld : (.tenant tenantId, .update) ∈ l := hl ▸ List.mem_cons_self
  have hchecks : Asking own merging slot env (query (.keyShare [.tenant tenantId, .user userId])) l
      fun _ l' ↦ l ⊆ l' := by
    refine query_asking _ fun v _ ↦ ⟨fun x hx ↦ ?_, fun _ _ _ ↦ List.subset_append_left _ _⟩
    simp only [Sql.locks, List.map_cons, List.map_nil, List.mem_cons, List.not_mem_nil, or_false] at hx
    rcases hx with rfl | rfl
    · exact mayAsk_of_update trivial hheld
    · exact mayAsk_of_idle rfl trivial
  refine hchecks.finish fun _ l' hsub ↦ ?_
  refine (saveTenant_asking (mayAsk_of_update trivial (hsub ?_))).finish fun _ _ _ ↦ trivial
  exact ht ▸ hheld

/-- The payments that a shift freezes lie with its tenant, whose row is locked: all at one height. -/
theorem freezeTransactions_level (tenantId : Uuid) (openedAt : Timestamp) (shiftId : Uuid)
    {ids : List Uuid} (htenant : (.tenant tenantId, .update) ∈ lk)
    (hlk : ∀ y ∈ lk, Idle env y ∨ heightOf false y.1 < toLex (4, 0) ∨
      ∃ id, y.1 = .transaction id ∧ own id = some tenantId) :
    Asking own false slot env (freezeTransactions tenantId openedAt shiftId ids) lk fun _ l ↦ lk ⊆ l := by
  induction ids generalizing lk with
  | nil => exact ⟨lk, rfl, List.Subset.refl _⟩
  | cons id ids ih =>
    have hfreeze : Asking own false slot env (query (.freezeTransaction tenantId openedAt shiftId id)) lk
        fun _ l ↦ lk ⊆ l ∧ ∀ y ∈ l, Idle env y ∨ heightOf false y.1 < toLex (4, 0) ∨
          ∃ id, y.1 = .transaction id ∧ own id = some tenantId := by
      have hown : ∀ (v : Db) (t : Transaction), v.Owned own →
          (v.transactions.find id).filter (fun t ↦ t.unfrozenSince tenantId openedAt) = some t →
            own id = some tenantId := by
        intro v t hv hfind
        obtain ⟨hfind, hunfrozen⟩ := Option.filter_eq_some_iff.1 hfind
        obtain ⟨hmem, hid⟩ := Table.find_eq_some.1 hfind
        have howned := (hv.transactions t hmem).id
        rwa [show t.id = id from hid, (of_decide_eq_true hunfrozen).1] at howned
      refine lockFound_asking (x := (.transaction id, .noKeyUpdate)) _ _ (fun _ ↦ rfl)
        (fun v t hv hfind ↦ ?_) (fun v t r ws hv hfind _ ↦ ⟨List.subset_append_left _ _, ?_⟩)
        fun v r ws hv hfind _ ↦ ⟨List.Subset.refl _, hlk⟩
      · have hid := hown v t hv hfind
        refine ⟨named_update id, Or.inr (Or.inr fun y hy ↦ (hlk y hy).imp_right (Or.imp_right ?_))⟩
        rintro ⟨id', hname, hid'⟩
        rw [hname]
        refine ⟨rfl, ?_, ?_⟩
        · change LockName.tenant ((own id').getD 0) = .tenant ((own id).getD 0)
          rw [hid, hid']
        · change (LockName.tenant ((own id).getD 0), LockMode.update) ∈ lk
          rw [hid]
          exact htenant
      · intro y hy
        rcases List.mem_append.1 hy with hy | hy
        · exact hlk y hy
        · obtain rfl := List.mem_singleton.1 hy
          exact Or.inr (Or.inr ⟨id, rfl, hown v t hv hfind⟩)
    exact hfreeze.bind fun _ l ⟨hsub, hl⟩ ↦ (ih (hsub htenant) hl).mono fun _ _ hl' ↦
      List.Subset.trans hsub hl'

/-- Beside merges they have to be locked in order. -/
theorem freezeTransactions_climbing (tenantId : Uuid) (openedAt : Timestamp) (shiftId : Uuid)
    {ids : List Uuid} (hids : ids.Pairwise (· ≤ ·))
    (hlk : Ladder true env .transaction .noKeyUpdate 4 lk ids) :
    Asking own true slot env (freezeTransactions tenantId openedAt shiftId ids) lk fun _ l ↦ lk ⊆ l := by
  induction ids generalizing lk with
  | nil => exact ⟨lk, rfl, List.Subset.refl _⟩
  | cons id ids ih =>
    obtain ⟨hle, hids⟩ := List.pairwise_cons.1 hids
    exact (hlk.update (.freezeTransaction tenantId openedAt shiftId id) (fun _ ↦ rfl)
      (named_update id) rfl hle).bind
      fun _ l ⟨hl, hsub, _⟩ ↦ (ih hids hl).mono fun _ _ hl' ↦ List.Subset.trans hsub hl'

theorem freezeTransactions_asking (hsorts : merging = true → Sorts env) (tenantId : Uuid)
    (openedAt : Timestamp) (shiftId : Uuid) (rows : List Uuid)
    (htenant : (.tenant tenantId, .update) ∈ lk) (hlk : Below merging env (toLex (4, 0)) lk) :
    Asking own merging slot env (freezeTransactions tenantId openedAt shiftId (env.scan rows)) lk
      fun _ l ↦ lk ⊆ l := by
  cases merging with
  | false =>
    exact freezeTransactions_level tenantId openedAt shiftId htenant fun y hy ↦ (hlk y hy).imp_right Or.inl
  | true =>
    exact freezeTransactions_climbing tenantId openedAt shiftId (hsorts rfl rows) (ladder_of_below hlk)

theorem closeTurn_finishing (hsorts : merging = true → Sorts env) (tenantId : Uuid)
    (dto : CloseTurnDto) : Finishing own merging slot env (closeTurn env tenantId dto) [] := by
  refine (lockTenant_asking tenantId (mayAsk_nil trivial)).finish fun t l ⟨ht, hl⟩ ↦ ?_
  subst hl
  split
  · trivial
  refine (read_asking (.findOpenShift tenantId _) (fun _ ↦ rfl) _).finish fun found l hl ↦ ?_
  subst hl
  split
  · trivial
  rename_i shift
  refine (read_asking (.sumCash tenantId shift.opened_at) (fun _ ↦ rfl) _).finish fun cash l hl ↦ ?_
  subst hl
  dsimp only
  split
  · trivial
  have hlow : Below merging env (toLex (3, 0)) ([] ++ [(.tenant tenantId, .update)]) :=
    below_singleton (Or.inr (low_lt (by decide)))
  refine (saveShift_asking (mayAsk_of_below trivial hlow)).finish fun _ l hl ↦ ?_
  have hheld : (.tenant tenantId, .update) ∈ l := hl.subset (List.mem_singleton.2 rfl)
  have hbelow : Below merging env (toLex (4, 0)) l :=
    hl.below (hlow.mono (low_lt (by decide)).le) (Or.inr (low_lt (by decide)))
  refine (read_asking (.selectUnfrozen tenantId shift.opened_at) (fun _ ↦ rfl) l).finish
    fun rows l' hl' ↦ ?_
  subst hl'
  refine (freezeTransactions_asking hsorts tenantId _ _ rows hheld hbelow).finish fun _ l hsub ↦ ?_
  refine (saveTenant_asking (mayAsk_of_update trivial (hsub ?_))).finish fun _ _ _ ↦ trivial
  exact ht ▸ hheld

theorem updateSettings_finishing (tenantId : Uuid) (dto : UpdateSettingsDto) :
    Finishing own merging slot env (updateSettings tenantId dto) [] := by
  refine (queryTenant_asking tenantId (mayAsk_nil trivial)).finish fun row l hl ↦ ?_
  cases row with
  | none => trivial
  | some t =>
    obtain ⟨ht, rfl⟩ := hl t rfl
    refine (saveTenant_asking (mayAsk_of_update trivial ?_)).finish fun _ _ _ ↦ trivial
    exact ht ▸ List.mem_singleton.2 rfl

theorem processPayment_finishing (externalPaymentId : String) (subscriptionId : Option String)
    (rawPayload : JsonValue) :
    Finishing own merging slot env (processPayment env externalPaymentId subscriptionId rawPayload) [] := by
  refine (read_asking (.findBillingEvent externalPaymentId) (fun _ ↦ rfl) []).finish fun event l hl ↦ ?_
  subst hl
  cases event with
  | some event => trivial
  | none =>
    have hlock : Asking own merging slot env
        (query (.lockSubscription ((truthy subscriptionId).getD "test_sub_id"))) []
        fun r l ↦ ∀ t ∈ r, l = [(.tenant t.id, .update)] := by
      refine query_asking _ fun v _ ↦ ⟨fun x hx ↦ ?_, fun r ws hexec t ht ↦ ?_⟩
      · obtain ⟨t, -, rfl⟩ := Option.map_eq_some_iff.1 (Option.mem_toList.1 hx)
        exact mayAsk_nil trivial
      obtain rfl : v.tenantBySubscription ((truthy subscriptionId).getD "test_sub_id") = r :=
        congrArg Prod.fst (Except.ok.inj hexec)
      rw [Option.mem_def] at ht
      rw [Sql.locks, ht]
      rfl
    refine hlock.finish fun row l hl ↦ ?_
    cases row with
    | none => trivial
    | some t =>
      obtain rfl := hl t rfl
      have hlow : Below merging env (toLex (3, 0)) [(.tenant t.id, .update)] :=
        below_singleton (Or.inr (low_lt (by decide)))
      have hevent : ∀ event : BillingEvent, Asking own merging slot env (query (.insertBillingEvent event))
          [(.tenant t.id, .update)] fun _ l ↦ (.tenant t.id, .update) ∈ l := by
        refine fun event ↦ query_asking (.insertBillingEvent event) fun v _ ↦
          ⟨fun x hx ↦ ?_, fun _ _ _ ↦ List.mem_append_left _ (List.mem_singleton.2 rfl)⟩
        simp only [Sql.locks, List.mem_cons, List.not_mem_nil, or_false] at hx
        rcases hx with rfl | rfl
        · exact mayAsk_of_below trivial hlow
        · exact mayAsk_of_below trivial hlow
      refine (hevent _).finish fun _ l hheld ↦ ?_
      refine (update_asking (.keyShare [.tenant t.id]) (fun _ ↦ rfl) (mayAsk_of_update trivial hheld)).finish
        fun _ l' hl' ↦ ?_
      refine (saveTenant_asking (mayAsk_of_update trivial (hl' ▸ List.mem_append_left _ hheld))).finish
        fun _ _ _ ↦ trivial

/-- Rows answered in some order have their identifiers in the order of the scan. -/
theorem ordered_sublist {β : Type} (env : Env) (key : β → Uuid) (rows : List β) :
    ((env.ordered key rows).map key).Sublist (env.scan (rows.map key)) := by
  unfold Env.ordered
  induction env.scan (rows.map key) with
  | nil => exact List.Sublist.slnil
  | cons id ids ih =>
    rw [List.filterMap_cons]
    split
    · exact ih.cons id
    · rename_i r hfind
      have hkey : key r = id := by simpa using List.find?_some hfind
      rw [List.map_cons, hkey]
      exact ih.cons_cons id

theorem processSaaSExpirations_finishing (hsorts : Sorts env) :
    Finishing own merging slot env (processSaaSExpirations env) [] := by
  refine (read_asking (.findExpiredTenants (addDays env.clock (-3))) (fun _ ↦ rfl) []).finish
    fun expired l hl ↦ ?_
  subst hl
  split
  · trivial
  · exact (suspendTenants_asking ((hsorts _).sublist (ordered_sublist env _ expired))
      (ladder_of_below below_nil)).finish fun _ _ _ ↦ trivial

theorem processOverdueCustomers_finishing (hsorts : Sorts env) (today : Date) :
    Finishing own merging slot env (processOverdueCustomers env today) [] := by
  refine (read_asking (.findOverdueCustomers today) (fun _ ↦ rfl) []).finish fun ids l hl ↦ ?_
  subst hl
  split
  · trivial
  · exact (markCustomers_asking (hsorts ids) (ladder_of_below below_nil)).finish fun _ _ _ ↦ trivial

theorem blockCustomers_finishing (hsorts : Sorts env) (rule : BlockRule) :
    Finishing own merging slot env (blockCustomers env rule) [] := by
  refine (read_asking (.selectBlocked rule) (fun _ ↦ rfl) []).finish fun ids l hl ↦ ?_
  subst hl
  exact (blockEach_asking rule (hsorts ids) (ladder_of_below below_nil)).finish fun _ _ _ ↦ trivial

/-! ## All requests -/

/-- What is asked of a request: the bulk statements meet their rows in order, and the identifiers of
a merge are written in lower case.  Without merges nothing is asked of the closing of a shift. -/
def Climbing (merging : Bool) (env : Env) : Request → Prop
  | .applyInflationAdjustment _ _ _ => Sorts env
  | .mergeCustomers _ dto =>
      merging = true ∧ Sorts env ∧ Plain dto.primary_id ∧ Plain dto.secondary_id
  | .closeTurn _ _ => merging = true → Sorts env
  | .processSaaSExpirations => Sorts env
  | .processOverdueCustomers _ => Sorts env
  | .processAutoBlocks _ _ => Sorts env
  | .processAutoBlockOnLimit => Sorts env
  | _ => True

theorem script_finishing {req : Request} (h : Climbing merging env req) :
    Finishing own merging req.transactionKey env (req.script env) [] := by
  have hanswer : ∀ {α : Type} {slot : Option (Uuid × Uuid)} {p : Script α} {f : α → Answer},
      Finishing own merging slot env p [] →
      Finishing own merging slot env (p >>= fun a ↦ pure (f a)) [] :=
    fun hp ↦ Prog.Locks.bind hp fun _ _ _ ↦ trivial
  cases req with
  | registerDebt => exact hanswer (registerDebt_finishing _ _ _ rfl)
  | registerPayment => exact hanswer (registerPayment_finishing _ _ _ rfl)
  | registerMixedPayment => exact hanswer (registerMixedPayment_finishing _ _ _ rfl)
  | reverseTransaction => exact hanswer (reverseTransaction_finishing _ _ _ _ rfl)
  | forgiveDebt => exact hanswer (forgiveDebt_finishing _ _ _ rfl)
  | applyInflationAdjustment => exact hanswer (applyInflationAdjustment_finishing h _ _ _)
  | createCustomer => exact hanswer (createCustomer_finishing _ _)
  | updateCustomer => exact hanswer (updateCustomer_finishing _ _ _)
  | updateCreditLimit => exact hanswer (updateCreditLimit_finishing _ _ _)
  | toggleBlock tenantId customerId =>
    refine hanswer ((findCustomerOrFail_asking tenantId customerId []).finish fun c l hl ↦ ?_)
    subst hl
    exact saveCustomerAlone_finishing _
  | updatePromise tenantId customerId dto =>
    refine hanswer ((findCustomerOrFail_asking tenantId customerId []).finish fun c l hl ↦ ?_)
    subst hl
    exact saveCustomerAlone_finishing _
  | mergeCustomers =>
    obtain ⟨rfl, hsorts, hprimary, hsecondary⟩ := h
    exact hanswer (mergeCustomers_finishing hsorts _ hprimary hsecondary)
  | openTurn => exact hanswer (openTurn_finishing _ _ _)
  | closeTurn => exact hanswer (closeTurn_finishing h _ _)
  | updateSettings => exact hanswer (updateSettings_finishing _ _)
  | processPayment => exact hanswer (processPayment_finishing _ _ _)
  | processSaaSExpirations => exact hanswer (processSaaSExpirations_finishing h)
  | processOverdueCustomers => exact hanswer (processOverdueCustomers_finishing h _)
  | processAutoBlocks => exact hanswer (blockCustomers_finishing h _)
  | processAutoBlockOnLimit => exact hanswer (blockCustomers_finishing h _)

end MicroErp.Commits
