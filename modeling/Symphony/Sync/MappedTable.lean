import Symphony.Sync.CustomTables
import Symphony.Sync.ScriptRules

/-! Tables of an indexer as maps. -/

namespace Symphony

open Encdec

def Maps {Key Value : Type} [Codec Key] [Codec Value] (cells : RawKey → Cell)
    (kv : IndexerTable Key Value) (map : Key → Option Value) : Prop :=
  ∀ key, Fits key → cells (kv.raw key) = .ok ((map key).map encode)

theorem IndexerTable.not_holds_raw {Key Value OtherKey OtherValue : Type} [Encode OtherKey]
    (kv : IndexerTable Key Value) (other : IndexerTable OtherKey OtherValue)
    (same : kv.indexer = other.indexer) (different : kv.table ≠ other.table) (otherKey : OtherKey) :
    ¬ kv.toTable.Holds (other.raw otherKey) := by
  intro held
  have tags := Table.tag_eq_of_holds kv.toTable other.toTable (other.raw otherKey)
    (by simp [toTable, indexerTable, same]) held (Table.holds_encodeKey other.toTable otherKey)
  simp only [toTable, indexerTable, same, List.append_cancel_left_eq, List.cons.injEq, and_true]
    at tags
  exact different tags

theorem IndexerTable.raw_ne {Key Value OtherKey OtherValue : Type} [Encode Key] [Encode OtherKey]
    (kv : IndexerTable Key Value) (other : IndexerTable OtherKey OtherValue)
    (same : kv.indexer = other.indexer) (different : kv.table ≠ other.table) (key : Key)
    (otherKey : OtherKey) : kv.raw key ≠ other.raw otherKey := by
  intro equal
  apply kv.not_holds_raw other same different otherKey
  rw [← equal]
  exact Table.holds_encodeKey kv.toTable key

namespace Maps

variable {Key Value : Type} [Codec Key] [Codec Value] [DecidableEq Key]
variable {kv : IndexerTable Key Value} {map : Key → Option Value} {state : TableState}

theorem set (maps : Maps state.cells kv map) {key : Key} (fits : Fits key) (value : Value) :
    Maps (state.write (kv.raw key) (.ok (some (encode value)))).cells kv
      (Function.update map key (some value)) := by
  intro other bounded
  by_cases same : other = key
  · rw [same, TableState.cells_write_self, Function.update_self, Option.map_some]
  · rw [Function.update_of_ne same, TableState.cells_write_ne, maps other bounded]
    intro equal
    exact same (Table.encodeKey_injective kv.toTable bounded fits equal)

omit [DecidableEq Key] in
theorem elsewhere {raw : RawKey} {cell : Cell} (maps : Maps state.cells kv map)
    (other : ∀ key, kv.raw key ≠ raw) : Maps (state.write raw cell).cells kv map := by
  intro key fits
  rw [TableState.cells_write_ne _ _ _ _ (other key), maps key fits]

omit [DecidableEq Key] in
theorem congr {cells other : RawKey → Cell} (maps : Maps cells kv map)
    (same : ∀ key, (other (kv.raw key)).toOption = (cells (kv.raw key)).toOption) :
    Maps other kv map := by
  intro key fits
  have equal := same key
  rw [maps key fits] at equal
  cases found : other (kv.raw key) with
  | error failure =>
      rw [found] at equal
      cases equal
  | ok stored =>
      rw [found] at equal
      exact congrArg Except.ok (Option.some.inj equal)

omit [DecidableEq Key] in
theorem decodes {cells : RawKey → Cell} (maps : Maps cells kv map) {key : Key} (fits : Fits key)
    (values : ∀ value, map key = some value → Fits value) :
    (IndexingTask.decodeCell (cells (kv.raw key)) : Except Error (Option Value)) = .ok (map key) := by
  rw [maps key fits]
  cases found : map key with
  | none => rfl
  | some value =>
      have decoded := decodeAll_encode value (values value found)
      simp only [Option.map_some, IndexingTask.decodeCell, bind, Except.bind, decoded, liftDecoding,
        pure, Except.pure]

omit [DecidableEq Key] in
theorem yields_get {post : Option Value → TableState → Prop} (maps : Maps state.cells kv map)
    {key : Key} (fits : Fits key) (values : ∀ value, map key = some value → Fits value) :
    (kv.get key).Yields post state ↔ post (map key) state := by
  rw [IndexerTable.yields_get, maps.decodes fits values]
  simp

omit [DecidableEq Key] in
theorem get {task : IndexingTask} (maps : Maps task.getRaw kv map) {key : Key} (fits : Fits key)
    (values : ∀ value, map key = some value → Fits value) :
    task.get kv.toTable key = .ok (map key) :=
  maps.decodes fits values

omit [DecidableEq Key] in
theorem read {handler : StorageHandler} (maps : Maps handler.db.view kv map) {key : Key}
    (fits : Fits key) (values : ∀ value, map key = some value → Fits value) :
    (handler.reader Timestamp.latest).get kv.toTable key = .ok (map key) :=
  maps.decodes fits values

end Maps

end Symphony
