import MicroErp.Commits.Alone
import MicroErp.Commits.Runs

/-!
# What an update of the settings stores

The body of `updateSettings` has six fields, and the service copies three of them by hand.  On these
it is a merge: the order of two updates of different fields does not matter, nor does a repetition.
A value for one of the other three is accepted, and stored only if it already was.
-/

namespace MicroErp.Guarantees

open MicroErp.Commits MicroErp.Concurrency MicroErp.Database MicroErp.Services MicroErp.Storage

variable {tenantId : Uuid} {dto : UpdateSettingsDto} {d d' : Db} {key : String} {value : JsonValue}

/-! ## Objects as maps -/

theorem lookup_cons_eq {β : Type} (x : String × β) (xs : List (String × β)) (k : String) :
    (x :: xs).lookup k = if k = x.1 then some x.2 else xs.lookup k := by
  rw [List.lookup_cons]
  by_cases hk : k = x.1
  · rw [if_pos hk, beq_iff_eq.2 hk]
  · rw [if_neg hk, beq_eq_false_iff_ne.2 hk]

theorem lookup_replaced_self {object : List (String × JsonValue)}
    (hmem : key ∈ object.map Prod.fst) (value : JsonValue) :
    (object.map fun x ↦ if x.1 = key then (key, value) else x).lookup key = some value := by
  induction object with
  | nil => cases hmem
  | cons x object ih =>
    rw [List.map_cons, lookup_cons_eq]
    by_cases hx : x.1 = key
    · rw [if_pos hx, if_pos rfl]
    · rw [if_neg hx, if_neg (Ne.symm hx)]
      exact ih ((List.mem_cons.1 hmem).resolve_left (Ne.symm hx))

theorem lookup_replaced_of_ne {k : String} (hk : k ≠ key) (object : List (String × JsonValue))
    (value : JsonValue) :
    (object.map fun x ↦ if x.1 = key then (key, value) else x).lookup k = object.lookup k := by
  induction object with
  | nil => rfl
  | cons x object ih =>
    rw [List.map_cons, lookup_cons_eq, lookup_cons_eq, ih]
    by_cases hx : x.1 = key
    · rw [if_pos hx, if_neg hk, hx, if_neg hk]
    · rw [if_neg hx]

theorem lookup_assignKey (object : List (String × JsonValue)) (key k : String) (value : JsonValue) :
    (assignKey object key value).lookup k = if k = key then some value else object.lookup k := by
  unfold assignKey
  split
  · rename_i hmem
    by_cases hk : k = key
    · rw [hk, if_pos rfl, lookup_replaced_self hmem]
    · rw [if_neg hk, lookup_replaced_of_ne hk]
  · rename_i hnew
    rw [List.lookup_append, lookup_cons_eq]
    by_cases hk : k = key
    · have hnone : object.lookup key = none :=
        List.lookup_eq_none_iff.2 fun x hx ↦
          bne_iff_ne.2 fun h ↦ hnew (h ▸ List.mem_map_of_mem hx)
      rw [hk, hnone, Option.none_or]
      rfl
    · rw [if_neg hk, if_neg hk, List.lookup_nil, Option.or_none]

def jsonOfText : Option String → JsonValue
  | none => .null
  | some text => .string text

theorem lookup_assignField (object : List (String × JsonValue)) (key k : String)
    (field : Option (Option String)) :
    (assignField object key field).lookup k =
      (if k = key then field.map jsonOfText else none).or (object.lookup k) := by
  rcases field with - | - | text
  · simp [assignField]
  · rw [assignField, lookup_assignKey]
    split <;> rfl
  · rw [assignField, lookup_assignKey]
    split <;> rfl

/-! ## The fields of a body -/

def jsonOfNumber : Option ℤ → JsonValue
  | none => .null
  | some n => .number n

def jsonOfMethods : Option (List PaymentMethod) → JsonValue
  | none => .null
  | some methods => .other ("[" ++ ", ".intercalate (methods.map methodText) ++ "]")
where
  methodText : PaymentMethod → String
    | .CASH => "\"CASH\""
    | .TRANSFER => "\"TRANSFER\""

/-- The fields that the service copies. -/
def copiedFields (dto : UpdateSettingsDto) : List (String × Option JsonValue) :=
  [("payment_alias", dto.payment_alias.map jsonOfText),
    ("currency_symbol", dto.currency_symbol.map jsonOfText),
    ("ticket_header", dto.ticket_header.map jsonOfText)]

/-- The fields that it leaves out. -/
def droppedFields (dto : UpdateSettingsDto) : List (String × Option JsonValue) :=
  [("auto_block_overdue_days", dto.auto_block_overdue_days.map jsonOfNumber),
    ("enabled_payment_methods", dto.enabled_payment_methods.map jsonOfMethods),
    ("default_credit_limit_cents", dto.default_credit_limit_cents.map jsonOfNumber)]

/-- The value under a key, if the field is present. -/
def fieldValue (fields : List (String × Option JsonValue)) (key : String) : Option JsonValue :=
  (fields.lookup key).join

/-- What the body says of a key. -/
def dtoValue (dto : UpdateSettingsDto) : String → Option JsonValue :=
  fieldValue (copiedFields dto ++ droppedFields dto)

theorem lookup_updatedSettings (settings : List (String × JsonValue)) (dto : UpdateSettingsDto)
    (key : String) :
    (updatedSettings settings dto).lookup key =
      (fieldValue (copiedFields dto) key).or (settings.lookup key) := by
  simp only [updatedSettings, lookup_assignField, fieldValue, copiedFields, lookup_cons_eq]
  by_cases halias : key = "payment_alias"
  · subst halias
    simp
  · by_cases hsymbol : key = "currency_symbol"
    · subst hsymbol
      simp
    · by_cases hheader : key = "ticket_header" <;> simp [halias, hsymbol, hheader]

/-- No key is both copied and left out. -/
theorem copied_of_dropped (h : fieldValue (droppedFields dto) key = some value) :
    (copiedFields dto).lookup key = none := by
  rw [List.lookup_eq_none_iff]
  intro x hx
  refine bne_iff_ne.2 ?_
  rintro rfl
  have hkeys : x.1 ∈ ["payment_alias", "currency_symbol", "ticket_header"] :=
    List.mem_map_of_mem (f := Prod.fst) hx
  rcases List.mem_cons.1 hkeys with heq | hkeys
  · rw [heq] at h
    cases h
  · rcases List.mem_cons.1 hkeys with heq | hkeys
    · rw [heq] at h
      cases h
    · rw [List.mem_singleton.1 hkeys] at h
      cases h

theorem dtoValue_of_dropped (h : fieldValue (droppedFields dto) key = some value) :
    dtoValue dto key = some value := by
  rw [dtoValue, fieldValue, List.lookup_append, copied_of_dropped h, Option.none_or]
  exact h

theorem dtoValue_of_not_dropped (h : fieldValue (droppedFields dto) key = none) :
    dtoValue dto key = fieldValue (copiedFields dto) key := by
  rw [dtoValue, fieldValue, fieldValue, List.lookup_append]
  cases hcopied : (copiedFields dto).lookup key with
  | some field => rfl
  | none => exact h

/-! ## Updates of the stored settings -/

/-- The request alone in the database succeeds and leaves `d'`. -/
def Updates (tenantId : Uuid) (dto : UpdateSettingsDto) (d d' : Db) : Prop :=
  ∃ (es : List (Event Unit)) (result : SettingsResult),
    (postgres.run (Sys.start d fun _ : Unit ↦ updateSettings tenantId dto) es).outcome () =
        some (.ok result) ∧
      (postgres.run (Sys.start d fun _ : Unit ↦ updateSettings tenantId dto) es).db = d'

/-- A stored setting of a tenant. -/
def setting (d : Db) (tenantId : Uuid) (key : String) : Option JsonValue :=
  (d.tenants.find tenantId).bind fun tenant ↦ tenant.settings.lookup key

/-- The update of `d` to `d'` by `dto` is a merge. -/
structure TrueMerge (tenantId : Uuid) (dto : UpdateSettingsDto) (d d' : Db) : Prop where
  merged : ∀ key, setting d' tenantId key = (dtoValue dto key).or (setting d tenantId key)
  commutes : ∀ dto', (∀ key, dtoValue dto key = none ∨ dtoValue dto' key = none) →
    ∀ d₁ d₂ d₃, Updates tenantId dto' d' d₁ → Updates tenantId dto' d d₂ →
      Updates tenantId dto d₂ d₃ → ∀ key, setting d₁ tenantId key = setting d₃ tenantId key
  repeats : ∀ d₁, Updates tenantId dto d' d₁ →
    ∀ key, setting d₁ tenantId key = setting d' tenantId key

theorem transactional_settings (tenantId : Uuid) (dto : UpdateSettingsDto) :
    (updateSettings tenantId dto).Transactional postgres := by
  refine Prog.Silent.bind_transactional (silent_query _) fun tenant ↦ ?_
  cases tenant with
  | none => trivial
  | some tenant =>
    refine Prog.Silent.bind_transactional ?_ fun _ ↦ trivial
    exact silent_saveEntity (silent_query _) fun _ ↦ silent_query _

theorem Updates.tenant (h : Updates tenantId dto d d') :
    ∃ tenant, d.tenants.find tenantId = some tenant ∧
      d' = putTenant { tenant with settings := updatedSettings tenant.settings dto } d := by
  obtain ⟨es, result, hok, rfl⟩ := h
  have heval := Engine.eval_of_answer (transactional_settings tenantId dto) hok
  rw [updateSettings, Engine.eval_bind, eval_query] at heval
  simp only [Sql.exec, Except.map, ok_bind, Engine.view_nil] at heval
  cases hfind : d.tenants.find tenantId with
  | none =>
    rw [hfind] at heval
    cases heval
  | some tenant =>
    rw [hfind] at heval
    refine ⟨tenant, rfl, ?_⟩
    have hkey : tenant.id = tenantId := Table.find_key hfind
    rw [Engine.eval_bind, eval_saveTenant _ d (hkey ▸ hfind)] at heval
    exact (congrArg Prod.snd (Except.ok.inj heval)).symm

/-- What an update does to every key. -/
theorem Updates.setting_eq (h : Updates tenantId dto d d') (key : String) :
    setting d' tenantId key =
      (fieldValue (copiedFields dto) key).or (setting d tenantId key) := by
  obtain ⟨tenant, hfind, rfl⟩ := h.tenant
  obtain rfl : tenant.id = tenantId := Table.find_key hfind
  rw [setting, find_putTenant { tenant with settings := updatedSettings tenant.settings dto } hfind,
    setting, hfind]
  exact lookup_updatedSettings tenant.settings dto key

theorem Updates.repeats {d₁ : Db} (h : Updates tenantId dto d d') (h₁ : Updates tenantId dto d' d₁)
    (key : String) : setting d₁ tenantId key = setting d' tenantId key := by
  rw [h₁.setting_eq, h.setting_eq, ← Option.or_assoc, Option.or_self]

theorem Updates.commutes {dto' : UpdateSettingsDto} {d₁ d₂ d₃ : Db}
    (hdisjoint : ∀ key, dtoValue dto key = none ∨ dtoValue dto' key = none)
    (h : Updates tenantId dto d d') (h₁ : Updates tenantId dto' d' d₁)
    (h₂ : Updates tenantId dto' d d₂) (h₃ : Updates tenantId dto d₂ d₃) (key : String) :
    setting d₁ tenantId key = setting d₃ tenantId key := by
  have hcopied (dto : UpdateSettingsDto) (hnone : dtoValue dto key = none) :
      fieldValue (copiedFields dto) key = none := by
    cases hdropped : fieldValue (droppedFields dto) key with
    | none => rw [← hnone, dtoValue_of_not_dropped hdropped]
    | some value => rw [fieldValue, copied_of_dropped hdropped, Option.join_none]
  rw [h₁.setting_eq, h.setting_eq, h₃.setting_eq, h₂.setting_eq]
  rcases hdisjoint key with hnone | hnone
  · rw [hcopied dto hnone, Option.none_or, Option.none_or]
  · rw [hcopied dto' hnone, Option.none_or, Option.none_or]

theorem autoBlockDays_updatedSettings (t : Tenant) (dto : UpdateSettingsDto) :
    Tenant.autoBlockDays { t with settings := updatedSettings t.settings dto } = t.autoBlockDays := by
  have hlookup : (updatedSettings t.settings dto).lookup "auto_block_overdue_days" =
      t.settings.lookup "auto_block_overdue_days" := lookup_updatedSettings t.settings dto _
  unfold Tenant.autoBlockDays
  rw [hlookup]

/-- So no update switches the automatic blocking on or off, nor changes its days. -/
theorem Updates.autoBlockTenants_eq (h : Updates tenantId dto d d') :
    d'.autoBlockTenants = d.autoBlockTenants := by
  obtain ⟨tenant, hfind, rfl⟩ := h.tenant
  obtain rfl : tenant.id = tenantId := Table.find_key hfind
  have hrows : (putTenant { tenant with settings := updatedSettings tenant.settings dto } d
      ).tenants.rows = d.tenants.rows.map fun t ↦
        if t.id = tenant.id then { t with settings := updatedSettings t.settings dto } else t := by
    rw [rows_putTenant]
    refine List.map_congr_left fun t ht ↦ ?_
    by_cases hid : t.id = tenant.id
    · rw [if_pos hid, if_pos hid, Table.eq_of_find hfind ht hid]
    · rw [if_neg hid, if_neg hid]
  let days (t : Tenant) : Except QueryFailedError (Uuid × Option ℤ) :=
    t.autoBlockDays >>= fun n ↦ pure (t.id, n)
  have hdays (t : Tenant) : days (if t.id = tenant.id then
      { t with settings := updatedSettings t.settings dto } else t) = days t := by
    by_cases hid : t.id = tenant.id
    · rw [if_pos hid]
      exact congrArg (· >>= fun n ↦ pure (t.id, n)) (autoBlockDays_updatedSettings t dto)
    · rw [if_neg hid]
  unfold Db.autoBlockTenants
  rw [hrows, List.mapM_map]
  exact congrArg (fun f ↦ List.mapM f d.tenants.rows >>= _) (funext hdays)

/-- An update is a merge exactly when it says nothing new with the fields that are not copied. -/
theorem true_merge_iff (h : Updates tenantId dto d d') :
    TrueMerge tenantId dto d d' ↔
      ∀ key value, fieldValue (droppedFields dto) key = some value →
        setting d tenantId key = some value := by
  constructor
  · intro hmerge key value hdropped
    have hmerged := hmerge.merged key
    rw [h.setting_eq, dtoValue_of_dropped hdropped, fieldValue, copied_of_dropped hdropped] at hmerged
    exact hmerged
  · intro hstored
    refine ⟨fun key ↦ ?_, fun dto' hdisjoint d₁ d₂ d₃ ↦ h.commutes hdisjoint,
      fun d₁ h₁ ↦ h.repeats h₁⟩
    rw [h.setting_eq]
    cases hdropped : fieldValue (droppedFields dto) key with
    | none => rw [dtoValue_of_not_dropped hdropped]
    | some value =>
      rw [dtoValue_of_dropped hdropped, hstored key value hdropped, fieldValue,
        copied_of_dropped hdropped]
      rfl

def blockAfterThreeDays : UpdateSettingsDto := { auto_block_overdue_days := some (some 3) }

def newAlias : UpdateSettingsDto := { payment_alias := some (some "kiosco.mp") }

/-- The update alone in the database of one tenant. -/
def updatingAlone (dto : UpdateSettingsDto) :
    Sys Unit Sql Sql.Ans Db Write LockName ServiceError SettingsResult :=
  postgres.run (Sys.start (Db.opened sampleTenants) fun _ : Unit ↦ updateSettings 1 dto)
    (List.replicate 5 (.step ()))

theorem updates_alias : Updates 1 newAlias (Db.opened sampleTenants) (updatingAlone newAlias).db :=
  ⟨_, ⟨"Kiosco", [("payment_alias", .string "kiosco.mp")]⟩, by decide +kernel, rfl⟩

theorem true_merge_alias :
    TrueMerge 1 newAlias (Db.opened sampleTenants) (updatingAlone newAlias).db := by
  refine (true_merge_iff updates_alias).2 fun key value hdropped ↦ ?_
  simp only [fieldValue, droppedFields, newAlias, lookup_cons_eq] at hdropped
  split_ifs at hdropped <;> cases hdropped

/-- The number of days is accepted and lost. -/
theorem days_dropped : Updates 1 blockAfterThreeDays (Db.opened sampleTenants)
      (updatingAlone blockAfterThreeDays).db ∧
    ¬TrueMerge 1 blockAfterThreeDays (Db.opened sampleTenants)
      (updatingAlone blockAfterThreeDays).db := by
  refine ⟨⟨_, ⟨"Kiosco", []⟩, by decide +kernel, rfl⟩, fun hmerge ↦ ?_⟩
  have hdays := hmerge.merged "auto_block_overdue_days"
  revert hdays
  decide +kernel

end MicroErp.Guarantees
