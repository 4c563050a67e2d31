import Symphony.Sync.UtxoSpec

/-! Rules for the scripts of transaction indexers.

A script is judged by what it reads and leaves behind: the cells of the task and the metadata
attached to outputs. `Yields` is the weakest condition before it under which every run that
succeeds ends in the given one. -/

namespace Symphony

open BigEndian (Byte)
open Encdec

/-- What a script sees of its task and leaves in the context. -/
structure TableState where
  cells : RawKey → Cell
  attached : TxoRef → ExtendedUtxoData

namespace TableState

def write (state : TableState) (key : RawKey) (cell : Cell) : TableState :=
  { state with cells := Function.update state.cells key cell }

def attach (state : TableState) (ref : TxoRef) (indexer : TransactionIndexer) (data : List Byte) :
    TableState :=
  { state with
    attached := Function.update state.attached ref ((state.attached ref).insert indexer data) }

variable (state : TableState) (key other : RawKey) (cell : Cell)

@[simp] theorem cells_write_self : (state.write key cell).cells key = cell := by
  simp only [write, Function.update_self]

theorem cells_write_ne (different : other ≠ key) :
    (state.write key cell).cells other = state.cells other := by
  simp only [write, Function.update_of_ne different]

@[simp] theorem attached_write : (state.write key cell).attached = state.attached := rfl

variable (ref : TxoRef) (indexer : TransactionIndexer) (data : List Byte)

@[simp] theorem attached_attach_self :
    (state.attach ref indexer data).attached ref = (state.attached ref).insert indexer data := by
  simp only [attach, Function.update_self]

theorem attached_attach_ne (elsewhere : TxoRef) (different : elsewhere ≠ ref) :
    (state.attach ref indexer data).attached elsewhere = state.attached elsewhere := by
  simp only [attach, Function.update_of_ne different]

end TableState

/-- The tables and the metadata a task and a context stand for. -/
def IndexingTask.tables (task : IndexingTask) (ctx : IndexingContext) : TableState :=
  ⟨task.getRaw, ctx.metadataOf⟩

namespace IndexingTask

variable {task after : IndexingTask} {key : RawKey}

theorem Touches.tables (touches : task.Touches key after) (ctx : IndexingContext) :
    after.tables ctx = (task.tables ctx).write key (after.getRaw key) := by
  have cells : after.getRaw = Function.update task.getRaw key (after.getRaw key) := by
    funext other
    by_cases same : other = key
    · rw [same, Function.update_self]
    · rw [Function.update_of_ne same, touches.getRaw_ne same]
  rw [IndexingTask.tables, cells, Function.update_self]
  rfl

theorem tables_attach (task : IndexingTask) (ctx : IndexingContext) (ref : TxoRef)
    (indexer : TransactionIndexer) (data : List Byte) :
    task.tables (ctx.attachUtxoMetadata ref indexer data) =
      (task.tables ctx).attach ref indexer data := by
  have attached : (ctx.attachUtxoMetadata ref indexer data).metadataOf =
      Function.update ctx.metadataOf ref ((ctx.metadataOf ref).insert indexer data) := by
    funext other
    by_cases same : other = ref
    · rw [same, Function.update_self, IndexingContext.metadataOf,
        IndexingContext.attachUtxoMetadata, AList.lookup_insert, Option.getD_some]
    · rw [Function.update_of_ne same]
      simp only [IndexingContext.metadataOf, IndexingContext.attachUtxoMetadata,
        AList.lookup_insert_ne same]
  rw [IndexingTask.tables, attached]
  rfl

end IndexingTask

namespace Footprint

structure Below (may more : Footprint) : Prop where
  set : ∀ raw, may.set raw → more.set raw
  delete : ∀ raw, may.delete raw → more.delete raw
  merge : ∀ raw, may.merge raw → more.merge raw
  attach : ∀ ref indexer, may.attach ref indexer → more.attach ref indexer

/-- The single actions are moves. A merge may leave any cell. -/
structure Allows (may : Footprint) (moves : TableState → TableState → Prop) : Prop where
  refl : ∀ state, moves state state
  trans : ∀ {first second third}, moves first second → moves second third → moves first third
  set : ∀ state raw value, may.set raw → raw.length < 2 ^ 63 →
    moves state (state.write raw (.ok (some value)))
  delete : ∀ state raw, may.delete raw → moves state (state.write raw (.ok none))
  merge : ∀ state raw cell, may.merge raw → moves state (state.write raw cell)
  attach : ∀ state ref indexer data, may.attach ref indexer →
    moves state (state.attach ref indexer data)

end Footprint

namespace Script

variable {α β : Type}

@[simp] theorem bind_eq (script : Script α) (next : α → Script β) :
    script >>= next = script.bind next := rfl

/-- Every successful run from the state ends in one that meets the condition. A merge leaves its
key with any cell. -/
def Yields (post : α → TableState → Prop) : Script α → TableState → Prop
  | .pure value, state => post value state
  | .fail _, _ => True
  | .get key next, state =>
      ∀ value, state.cells key.raw = .ok value → (next value).Yields post state
  | .set key value next, state => key.raw.length < 2 ^ 63 →
      next.Yields post (state.write key.raw (.ok (some value)))
  | .delete key next, state => key.raw.length < 2 ^ 63 →
      next.Yields post (state.write key.raw (.ok none))
  | .mergeOp key _ next, state => ∀ cell, next.Yields post (state.write key.raw cell)
  | .attach ref indexer data next, state => next.Yields post (state.attach ref indexer data)

theorem Yields.run {post : α → TableState → Prop} {script : Script α}
    {task after : IndexingTask} {ctx ctx' : IndexingContext} {value : α}
    (yields : script.Yields post (task.tables ctx))
    (success : script.run task ctx = .ok (value, after, ctx')) : post value (after.tables ctx') := by
  induction script generalizing task ctx with
  | pure result =>
      cases success
      exact yields
  | fail failure => cases success
  | get key next ih =>
      simp only [Script.run] at success
      split at success
      · rename_i read found
        exact ih read (yields read found) success
      · cases success
  | set key bytes next ih =>
      simp only [Script.run] at success
      split at success
      · rename_i middle step
        have touches := IndexingTask.setRaw_touches step
        have tables := touches.tables ctx
        rw [IndexingTask.setRaw_getRaw step] at tables
        exact ih (tables ▸ yields touches.1) success
      · cases success
  | delete key next ih =>
      simp only [Script.run] at success
      split at success
      · rename_i middle step
        have touches := IndexingTask.deleteRaw_touches step
        have tables := touches.tables ctx
        rw [IndexingTask.deleteRaw_getRaw step] at tables
        exact ih (tables ▸ yields touches.1) success
      · cases success
  | mergeOp key op next ih =>
      simp only [Script.run] at success
      split at success
      · rename_i middle step
        have touches := IndexingTask.mergeOpRaw_touches step
        exact ih (touches.tables ctx ▸ yields (middle.getRaw key.raw)) success
      · cases success
  | attach ref indexer data next ih =>
      exact ih (IndexingTask.tables_attach task ctx ref indexer data ▸ yields) success

theorem Yields.mono {post weaker : α → TableState → Prop} {script : Script α} {state : TableState}
    (yields : script.Yields post state)
    (implies : ∀ value after, post value after → weaker value after) :
    script.Yields weaker state := by
  induction script generalizing state with
  | pure value => exact implies value state yields
  | fail failure => trivial
  | get key next ih => exact fun value found => ih value (yields value found)
  | set key value next ih => exact fun short => ih (yields short)
  | delete key next ih => exact fun short => ih (yields short)
  | mergeOp key op next ih => exact fun cell => ih (yields cell)
  | attach ref indexer data next ih => exact ih yields

theorem Yields.and {post other : α → TableState → Prop} {script : Script α} {state : TableState}
    (yields : script.Yields post state) (more : script.Yields other state) :
    script.Yields (fun value after => post value after ∧ other value after) state := by
  induction script generalizing state with
  | pure value => exact ⟨yields, more⟩
  | fail failure => trivial
  | get key next ih => exact fun value found => ih value (yields value found) (more value found)
  | set key value next ih => exact fun short => ih (yields short) (more short)
  | delete key next ih => exact fun short => ih (yields short) (more short)
  | mergeOp key op next ih => exact fun cell => ih (yields cell) (more cell)
  | attach ref indexer data next ih => exact ih yields more

@[simp] theorem yields_pure (post : α → TableState → Prop) (value : α) (state : TableState) :
    (Script.pure value).Yields post state ↔ post value state := Iff.rfl

@[simp] theorem yields_fail (post : α → TableState → Prop) (failure : Error) (state : TableState) :
    (Script.fail failure : Script α).Yields post state ↔ True := Iff.rfl

theorem yields_bind (post : β → TableState → Prop) (script : Script α) (next : α → Script β)
    (state : TableState) :
    (script.bind next).Yields post state ↔
      script.Yields (fun value after => (next value).Yields post after) state := by
  induction script generalizing state with
  | pure value => exact Iff.rfl
  | fail failure => exact Iff.rfl
  | get key rest ih => exact forall_congr' (fun value => imp_congr_right (fun _ => ih value state))
  | set key value rest ih => exact imp_congr_right (fun _ => ih _)
  | delete key rest ih => exact imp_congr_right (fun _ => ih _)
  | mergeOp key op rest ih => exact forall_congr' (fun cell => ih _)
  | attach ref indexer data rest ih => exact ih _

theorem Yields.bind {middle : α → TableState → Prop} {post : β → TableState → Prop}
    {script : Script α} {next : α → Script β} {state : TableState}
    (first : script.Yields middle state)
    (second : ∀ value after, middle value after → (next value).Yields post after) :
    (script.bind next).Yields post state :=
  (yields_bind post script next state).mpr (first.mono second)

theorem yields_lift (post : α → TableState → Prop) (result : Except Error α) (state : TableState) :
    (Script.lift result).Yields post state ↔ ∀ value, result = .ok value → post value state := by
  cases result with
  | error failure =>
      simp only [lift, yields_fail, true_iff]
      intro value impossible
      cases impossible
  | ok value =>
      simp only [lift, yields_pure, Except.ok.injEq]
      constructor
      · rintro holds other rfl
        exact holds
      · intro holds
        exact holds value rfl

theorem Within.mono {may more : Footprint} {script : Script α} (within : script.Within may)
    (below : may.Below more) : script.Within more := by
  induction script with
  | pure value => trivial
  | fail failure => trivial
  | get key next ih => exact fun value => ih value (within value)
  | set key value next ih => exact ⟨below.set _ within.1, ih within.2⟩
  | delete key next ih => exact ⟨below.delete _ within.1, ih within.2⟩
  | mergeOp key op next ih => exact ⟨below.merge _ within.1, ih within.2⟩
  | attach ref indexer data next ih => exact ⟨below.attach _ _ within.1, ih within.2⟩

theorem Within.bind {may : Footprint} {script : Script α} {next : α → Script β}
    (first : script.Within may) (second : ∀ value, (next value).Within may) :
    (script.bind next).Within may := by
  induction script with
  | pure value => exact second value
  | fail failure => trivial
  | get key rest ih => exact fun value => ih value (first value)
  | set key value rest ih => exact ⟨first.1, ih first.2⟩
  | delete key rest ih => exact ⟨first.1, ih first.2⟩
  | mergeOp key op rest ih => exact ⟨first.1, ih first.2⟩
  | attach ref indexer data rest ih => exact ⟨first.1, ih first.2⟩

theorem within_lift (may : Footprint) (result : Except Error α) : (lift result).Within may := by
  cases result with
  | error failure => trivial
  | ok value => trivial

/-- A script is a move if each of its actions is one. -/
theorem Within.yields {may : Footprint} {moves : TableState → TableState → Prop} {script : Script α}
    (within : script.Within may) (allows : may.Allows moves) (state : TableState) :
    script.Yields (fun _ after => moves state after) state := by
  induction script generalizing state with
  | pure value => exact allows.refl state
  | fail failure => trivial
  | get key next ih => exact fun value _ => ih value (within value) state
  | set key value next ih =>
      intro short
      exact (ih within.2 _).mono (fun _ _ later =>
        allows.trans (allows.set state key.raw value within.1 short) later)
  | delete key next ih =>
      intro _
      exact (ih within.2 _).mono (fun _ _ later =>
        allows.trans (allows.delete state key.raw within.1) later)
  | mergeOp key op next ih =>
      intro cell
      exact (ih within.2 _).mono (fun _ _ later =>
        allows.trans (allows.merge state key.raw cell within.1) later)
  | attach ref indexer data next ih =>
      exact (ih within.2 _).mono (fun _ _ later =>
        allows.trans (allows.attach state ref indexer data within.1) later)

end Script

namespace IndexerTable

variable {Key Value : Type} [Encode Key] (kv : IndexerTable Key Value)

def raw (key : Key) : RawKey := kv.toTable.encodeKey key

theorem raw_key (key : Key) : (kv.key key).raw = kv.raw key := rfl

theorem yields_get [Decode Value] (post : Option Value → TableState → Prop) (key : Key)
    (state : TableState) :
    (kv.get key).Yields post state ↔
      ∀ value, IndexingTask.decodeCell (state.cells (kv.raw key)) = .ok value → post value state := by
  simp only [IndexerTable.get, Script.Yields, raw_key]
  cases found : state.cells (kv.raw key) with
  | error failure =>
      simp [IndexingTask.decodeCell, bind, Except.bind]
  | ok stored =>
      cases stored with
      | none =>
          simp [IndexingTask.decodeCell, bind, Except.bind, pure, Except.pure]
      | some bytes =>
          simp only [Except.ok.injEq, forall_eq', Script.yields_lift]
          cases decoded : (liftDecoding (decodeAll bytes : Except DecodingError Value)) with
          | error failure =>
              simp [IndexingTask.decodeCell, decoded, bind, Except.bind, Except.map]
          | ok value =>
              simp [IndexingTask.decodeCell, decoded, bind, Except.bind, pure, Except.pure, Except.map]

theorem yields_set [Encode Value] (post : Unit → TableState → Prop) (key : Key) (value : Value)
    (state : TableState) :
    (kv.set key value).Yields post state ↔ ((kv.raw key).length < 2 ^ 63 →
      post () (state.write (kv.raw key) (.ok (some (encode value))))) := Iff.rfl

theorem yields_delete (post : Unit → TableState → Prop) (key : Key) (state : TableState) :
    (kv.delete key).Yields post state ↔ ((kv.raw key).length < 2 ^ 63 →
      post () (state.write (kv.raw key) (.ok none))) := Iff.rfl

end IndexerTable

/-- A key of one of the indexer's tables. -/
def TransactionIndexer.Owns (who : TransactionIndexer) (key : RawKey) : Prop :=
  [customIndexerTag] ++ encode (BitVec.ofNat 16 who.kind.val) <+: key

theorem TransactionIndexer.owns_table {Key Value : Type} {who : TransactionIndexer}
    {table : BigEndian.Byte} {key : RawKey} (held : (indexerTable Key Value who table).Holds key) :
    who.Owns key :=
  (List.prefix_append _ [table]).trans held

theorem IndexerTable.owns_raw {Key Value : Type} [Encode Key] (kv : IndexerTable Key Value)
    (key : Key) : kv.indexer.Owns (kv.raw key) :=
  TransactionIndexer.owns_table (Table.holds_encodeKey kv.toTable key)

/-- Two states agree on the tables and the metadata of an indexer. -/
structure TableState.Alike (who : TransactionIndexer) (first second : TableState) : Prop where
  cells : ∀ key, who.Owns key → second.cells key = first.cells key
  attached : ∀ ref, (second.attached ref).get? who = (first.attached ref).get? who

namespace Footprint

variable {who other : TransactionIndexer} {keys : RawKey → Prop} {refs : TxoRef → Prop}

/-- Actions that keep off the tables and the metadata of an indexer. -/
def besides (who : TransactionIndexer) : Footprint where
  set key := ¬ who.Owns key
  delete key := ¬ who.Owns key
  merge key := ¬ who.Owns key
  attach _ indexer := indexer ≠ who

/-- The actions of an indexer on its own tables and metadata. The keys that get a value are among
`keys`, if they fit in memory, and the outputs with metadata among `refs`. -/
def own (who : TransactionIndexer) (keys : RawKey → Prop) (refs : TxoRef → Prop) : Footprint where
  set key := who.Owns key ∧ (key.length < 2 ^ 63 → keys key)
  delete := who.Owns
  merge key := who.Owns key ∧ keys key
  attach ref indexer := indexer = who ∧ refs ref

theorem own_below_onKeys {allowed : RawKey → Prop} (inside : ∀ key, who.Owns key → allowed key) :
    (own who keys refs).Below (.onKeys allowed) :=
  ⟨fun key owns => inside key owns.1, inside, fun key owns => inside key owns.1, fun _ _ _ => trivial⟩

theorem besides_allows : (besides who).Allows (TableState.Alike who) := by
  have write (state : TableState) (key : RawKey) (cell : Cell) (outside : ¬ who.Owns key) :
      TableState.Alike who state (state.write key cell) := by
    constructor
    · intro other owns
      apply TableState.cells_write_ne
      rintro rfl
      exact outside owns
    · intro ref
      rfl
  refine ⟨fun state => ⟨fun _ _ => rfl, fun _ => rfl⟩, ?_, fun state key value outside _ =>
    write state key _ outside, fun state key => write state key _, write, ?_⟩
  · intro first second third left right
    exact ⟨fun key owns => (right.cells key owns).trans (left.cells key owns),
      fun ref => (right.attached ref).trans (left.attached ref)⟩
  · intro state ref indexer data different
    refine ⟨fun _ _ => rfl, ?_⟩
    intro elsewhere
    by_cases same : elsewhere = ref
    · rw [same, TableState.attached_attach_self, IndexMap.get?_insert_ne _ _ _ _ different.symm]
    · rw [TableState.attached_attach_ne _ _ _ _ _ same]

/-- What an indexer leaves outside of its keys and its outputs. -/
structure Settled (keys : RawKey → Prop) (refs : TxoRef → Prop) (first second : TableState) :
    Prop where
  unset : ∀ key, ¬ keys key → first.cells key = .ok none → second.cells key = .ok none
  attached : ∀ ref, ¬ refs ref → second.attached ref = first.attached ref

theorem own_allows : (own who keys refs).Allows (Settled keys refs) := by
  have write (state : TableState) (key : RawKey) (cell : Cell) (inside : cell = .ok none ∨ keys key) :
      Settled keys refs state (state.write key cell) := by
    refine ⟨?_, fun _ _ => rfl⟩
    intro other outside empty
    by_cases same : other = key
    · rw [same] at outside ⊢
      rw [TableState.cells_write_self]
      exact inside.resolve_right outside
    · rw [TableState.cells_write_ne _ _ _ _ same]
      exact empty
  refine ⟨fun state => ⟨fun _ _ empty => empty, fun _ _ => rfl⟩, ?_, fun state key value own short =>
    write state key _ (Or.inr (own.2 short)), fun state key _ => write state key _ (Or.inl rfl),
    fun state key cell own => write state key cell (Or.inr own.2), ?_⟩
  · intro first second third left right
    exact ⟨fun key outside empty => right.unset key outside (left.unset key outside empty),
      fun ref outside => (right.attached ref outside).trans (left.attached ref outside)⟩
  · intro state ref indexer data own
    refine ⟨fun _ _ empty => empty, ?_⟩
    intro elsewhere outside
    apply TableState.attached_attach_ne
    rintro rfl
    exact outside own.2

end Footprint

namespace IndexerTable

variable {Key Value : Type} [Encode Key] (kv : IndexerTable Key Value) {keys : RawKey → Prop}
variable {refs : TxoRef → Prop}

theorem get_within [Decode Value] (may : Footprint) (key : Key) : (kv.get key).Within may := by
  intro value
  cases value with
  | none => trivial
  | some bytes => exact Script.within_lift may _

theorem set_within [Encode Value] {key : Key} {value : Value}
    (listed : (kv.raw key).length < 2 ^ 63 → keys (kv.raw key)) :
    (kv.set key value).Within (.own kv.indexer keys refs) :=
  ⟨⟨kv.owns_raw key, listed⟩, trivial⟩

theorem delete_within (key : Key) : (kv.delete key).Within (.own kv.indexer keys refs) :=
  ⟨kv.owns_raw key, trivial⟩

end IndexerTable

end Symphony
