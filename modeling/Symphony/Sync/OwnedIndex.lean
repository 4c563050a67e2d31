import Symphony.Sync.CustomTables
import Symphony.Sync.ScriptRules

/-! Tables that list the outputs of an owner.

The rune, charm and address indexers file an output under a script or an app, at the height it was
produced; the entry carries no value, so a table is the set of the keys it lists. -/

namespace Symphony

open Encdec

abbrev OwnedTable := IndexerTable OwnedUtxoKey Unit

/-- The table lists exactly these keys. Owners are bounded as byte strings in memory are. -/
def Lists (cells : RawKey → Cell) (kv : OwnedTable) (listed : OwnedUtxoKey → Prop) : Prop :=
  ∀ key : OwnedUtxoKey, key.owner.length < 2 ^ 64 →
    (listed key → cells (kv.raw key) = .ok (some (encode ()))) ∧
      (¬ listed key → cells (kv.raw key) = .ok none)

theorem fits_owned {key : OwnedUtxoKey} (short : key.owner.length < 2 ^ 64) : Fits key :=
  ⟨⟨short, by intro _ _; trivial⟩, trivial, trivial⟩

theorem owner_lt {kv : OwnedTable} {key : OwnedUtxoKey} (short : (kv.raw key).length < 2 ^ 63) :
    key.owner.length < 2 ^ 64 := by
  have items : (key.owner.flatMap (encode : BigEndian.Byte → List BigEndian.Byte)).length =
      key.owner.length := by simp [encode]
  have body : key.owner.length ≤ (kv.raw key).length := by
    simp only [IndexerTable.raw, Table.encodeKey, encode, OwnedUtxoKey.fields, Equiv.coe_fn_mk,
      List.length_append] at items ⊢
    omega
  omega

theorem owned_raw_injective {kv : OwnedTable} {first second : OwnedUtxoKey}
    (short : first.owner.length < 2 ^ 64) (short' : second.owner.length < 2 ^ 64)
    (same : kv.raw first = kv.raw second) : first = second :=
  Table.encodeKey_injective kv.toTable (fits_owned short) (fits_owned short') same

namespace Lists

variable {kv : OwnedTable} {listed : OwnedUtxoKey → Prop} {state : TableState} {key : OwnedUtxoKey}

theorem congr {cells other : RawKey → Cell} (lists : Lists cells kv listed)
    (same : ∀ key, (other (kv.raw key)).toOption = (cells (kv.raw key)).toOption) :
    Lists other kv listed := by
  have kept (key : OwnedUtxoKey) (value : Option RawValue) (read : cells (kv.raw key) = .ok value) :
      other (kv.raw key) = .ok value := by
    have equal := same key
    rw [read] at equal
    cases found : other (kv.raw key) with
    | error failure =>
        rw [found] at equal
        cases equal
    | ok stored =>
        rw [found] at equal
        exact congrArg Except.ok (Option.some.inj equal)
  intro key short
  exact ⟨fun inside => kept key _ ((lists key short).1 inside),
    fun outside => kept key _ ((lists key short).2 outside)⟩

theorem same {other : OwnedUtxoKey → Prop} {cells : RawKey → Cell} (lists : Lists cells kv listed)
    (equal : ∀ key, listed key ↔ other key) : Lists cells kv other := by
  intro key short
  rw [← equal key]
  exact lists key short

theorem set (lists : Lists state.cells kv listed) (short : (kv.raw key).length < 2 ^ 63) :
    Lists (state.write (kv.raw key) (.ok (some (encode ())))).cells kv
      (fun other => other = key ∨ listed other) := by
  intro other bounded
  by_cases same : other = key
  · subst same
    rw [TableState.cells_write_self]
    exact ⟨fun _ => rfl, fun absent => absurd (Or.inl rfl) absent⟩
  · rw [TableState.cells_write_ne]
    · simp only [same, false_or]
      exact lists other bounded
    · intro equal
      exact same (owned_raw_injective bounded (owner_lt short) equal)

theorem delete (lists : Lists state.cells kv listed) (short : (kv.raw key).length < 2 ^ 63) :
    Lists (state.write (kv.raw key) (.ok none)).cells kv
      (fun other => listed other ∧ other ≠ key) := by
  intro other bounded
  by_cases same : other = key
  · subst same
    rw [TableState.cells_write_self]
    exact ⟨fun both => absurd rfl both.2, fun _ => rfl⟩
  · rw [TableState.cells_write_ne]
    · simp only [ne_eq, same, not_false_eq_true, and_true]
      exact lists other bounded
    · intro equal
      exact same (owned_raw_injective bounded (owner_lt short) equal)

theorem elsewhere {raw : RawKey} {cell : Cell} (lists : Lists state.cells kv listed)
    (other : ∀ key, kv.raw key ≠ raw) : Lists (state.write raw cell).cells kv listed := by
  apply lists.congr
  intro key
  rw [TableState.cells_write_ne _ _ _ _ (other key)]

theorem read {handler : StorageHandler} (lists : Lists handler.db.view kv listed)
    (short : key.owner.length < 2 ^ 64) :
    (handler.reader Timestamp.latest).get kv.toTable key = .ok (some ()) ↔ listed key := by
  have shown (cell : Cell) (view : handler.db.view (kv.raw key) = cell) :
      (handler.reader Timestamp.latest).get kv.toTable key = IndexingTask.decodeCell cell := by
    rw [← view]
    rfl
  by_cases inside : listed key
  · rw [shown _ ((lists key short).1 inside)]
    exact ⟨fun _ => inside, fun _ => rfl⟩
  · rw [shown _ ((lists key short).2 inside)]
    constructor
    · intro impossible
      cases impossible
    · intro listed
      exact absurd listed inside

end Lists

def OnlyIn (kv : OwnedTable) (state after : TableState) : Prop :=
  ∀ raw, (∀ key, kv.raw key ≠ raw) → after.cells raw = state.cells raw

theorem OnlyIn.refl (kv : OwnedTable) (state : TableState) : OnlyIn kv state state :=
  fun _ _ => rfl

theorem OnlyIn.trans {kv : OwnedTable} {first second third : TableState}
    (left : OnlyIn kv first second) (right : OnlyIn kv second third) : OnlyIn kv first third := by
  intro raw outside
  rw [right raw outside, left raw outside]

theorem onlyIn_write (kv : OwnedTable) (state : TableState) (key : OwnedUtxoKey) (cell : Cell) :
    OnlyIn kv state (state.write (kv.raw key) cell) := by
  intro raw outside
  exact TableState.cells_write_ne _ _ _ _ (fun same => outside key same.symm)

theorem Lists.onlyIn {kv other : OwnedTable} {listed : OwnedUtxoKey → Prop}
    {state after : TableState} (lists : Lists state.cells other listed) (only : OnlyIn kv state after)
    (apart : ∀ first second, kv.raw first ≠ other.raw second) : Lists after.cells other listed := by
  apply lists.congr
  intro key
  rw [only _ (fun first => apart first key)]

/-- A key of one of the tables, with an owner that fits in memory. -/
def OwnedRaw (tables : List OwnedTable) (raw : RawKey) : Prop :=
  ∃ kv ∈ tables, ∃ key : OwnedUtxoKey, key.owner.length < 2 ^ 64 ∧ raw = kv.raw key

namespace OwnedTable

def deleteAll (kv : OwnedTable) : List OwnedUtxoKey → Script Unit
  | [] => .pure ()
  | key :: keys => do
      kv.delete key
      kv.deleteAll keys

def setAll (kv : OwnedTable) : List OwnedUtxoKey → Script Unit
  | [] => .pure ()
  | key :: keys => do
      kv.set key ()
      kv.setAll keys

variable {kv : OwnedTable} {keys : List OwnedUtxoKey} {listed : OwnedUtxoKey → Prop}
variable {state : TableState}

theorem deleteAll_yields (lists : Lists state.cells kv listed) :
    (kv.deleteAll keys).Yields (fun _ after => after.attached = state.attached ∧
      OnlyIn kv state after ∧ Lists after.cells kv (fun key => listed key ∧ key ∉ keys)) state := by
  induction keys generalizing state listed with
  | nil => exact ⟨rfl, .refl _ _, lists.same (by simp)⟩
  | cons key keys ih =>
      simp only [deleteAll, Script.bind_eq, Script.yields_bind, IndexerTable.yields_delete]
      intro short
      apply (ih (lists.delete short)).mono
      rintro _ after ⟨attached, only, left⟩
      refine ⟨attached, (onlyIn_write kv state key _).trans only, left.same ?_⟩
      intro other
      simp only [List.mem_cons, not_or, and_assoc, ne_eq]

theorem setAll_yields (lists : Lists state.cells kv listed) :
    (kv.setAll keys).Yields (fun _ after => after.attached = state.attached ∧
      OnlyIn kv state after ∧ Lists after.cells kv (fun key => listed key ∨ key ∈ keys)) state := by
  induction keys generalizing state listed with
  | nil => exact ⟨rfl, .refl _ _, lists.same (by simp)⟩
  | cons key keys ih =>
      simp only [setAll, Script.bind_eq, Script.yields_bind, IndexerTable.yields_set]
      intro short
      apply (ih (lists.set short)).mono
      rintro _ after ⟨attached, only, left⟩
      refine ⟨attached, (onlyIn_write kv state key _).trans only, left.same ?_⟩
      intro other
      simp only [List.mem_cons]
      tauto

section Within

variable (kv : OwnedTable) {tables : List OwnedTable} {refs : TxoRef → Prop}

theorem deleteAll_within (removed : List OwnedUtxoKey) :
    (kv.deleteAll removed).Within (.own kv.indexer (OwnedRaw tables) refs) := by
  induction removed with
  | nil => trivial
  | cons key removed ih => exact (kv.delete_within key).bind (fun _ => ih)

theorem insert_within (member : kv ∈ tables) (key : OwnedUtxoKey) :
    (kv.set key ()).Within (.own kv.indexer (OwnedRaw tables) refs) :=
  kv.set_within (fun short => ⟨kv, member, key, owner_lt short, rfl⟩)

theorem setAll_within (member : kv ∈ tables) (filed : List OwnedUtxoKey) :
    (kv.setAll filed).Within (.own kv.indexer (OwnedRaw tables) refs) := by
  induction filed with
  | nil => trivial
  | cons key filed ih => exact (kv.insert_within member key).bind (fun _ => ih)

end Within

end OwnedTable

end Symphony
