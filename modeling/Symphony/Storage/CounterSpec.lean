import Mathlib.Data.List.Induction
import Symphony.Storage.MergeSpec
import Symphony.Storage.TaskCalls

/-! Counters: what a task reads back after setting, deleting, incrementing and decrementing
keys of tables with variable-length unsigned values. -/

namespace Symphony

open Encdec

inductive CounterAction (Value : Type) where
  | set (value : Value)
  | delete
  | increment (amount : Value)
  | decrement (amount : Value)

structure CounterCall : Type 1 where
  Key : Type
  Value : Type
  [encodeKey : Encode Key]
  [encodeValue : Encode Value]
  [decodeValue : Decode Value]
  [varUInt : VarUIntEncoded Value]
  table : Table Key Value
  key : Key
  action : CounterAction Value

attribute [instance] CounterCall.encodeKey CounterCall.encodeValue CounterCall.decodeValue
  CounterCall.varUInt

def amountOf {Value : Type} [Encode Value] [Decode Value] [VarUIntEncoded Value] (value : Value) :
    Nat :=
  (VarUIntEncoded.asU128 value).toNat

def amounts {Value : Type} [Encode Value] [Decode Value] [VarUIntEncoded Value]
    (read : Except Error (Option Value)) : Except Error (Option Nat) :=
  read.map (Option.map amountOf)

namespace CounterAction

variable {Value : Type} [Encode Value] [Decode Value] [VarUIntEncoded Value]

def refer (action : CounterAction Value) (current : Option Nat) : Option Nat :=
  match action with
  | .set value => some (amountOf value)
  | .delete => none
  | .increment amount => some (current.getD 0 + amountOf amount)
  | .decrement amount => some (current.getD 0 - amountOf amount)

/-- No increment beyond the largest value of the type and no decrement below zero. -/
def Legal (action : CounterAction Value) (current : Option Nat) : Prop :=
  match action with
  | .set _ => True
  | .delete => True
  | .increment amount => current.getD 0 + amountOf amount < 2 ^ VarUIntEncoded.width Value
  | .decrement amount => amountOf amount ≤ current.getD 0

instance (action : CounterAction Value) (current : Option Nat) : Decidable (action.Legal current) :=
  match action with
  | .set _ => inferInstanceAs (Decidable True)
  | .delete => inferInstanceAs (Decidable True)
  | .increment _ => inferInstanceAs (Decidable (_ < _))
  | .decrement _ => inferInstanceAs (Decidable (_ ≤ _))

end CounterAction

namespace CounterCall

def target (call : CounterCall) : RawKey := call.table.encodeKey call.key

def toTaskCall (call : CounterCall) : TaskCall :=
  match call.action with
  | .set value => .set call.table call.key value
  | .delete => .delete call.table call.key
  | .increment amount => .increment call.table call.key amount
  | .decrement amount => .decrement call.table call.key amount

def refer (call : CounterCall) (values : RawKey → Option Nat) : RawKey → Option Nat :=
  Function.update values call.target (call.action.refer (values call.target))

end CounterCall

/-- The values after a sequence of calls in the reference semantics. -/
def reference (values : RawKey → Option Nat) (calls : List CounterCall) : RawKey → Option Nat :=
  calls.foldl (fun values call => call.refer values) values

def LegalCalls (values : RawKey → Option Nat) : List CounterCall → Prop
  | [] => True
  | call :: calls => call.action.Legal (values call.target) ∧ LegalCalls (call.refer values) calls

/-- What has happened to a key: `recounted` is deleted and then incremented or decremented. -/
inductive KeyHistory where
  | untouched
  | counted
  | written
  | removed
  | recounted
  deriving DecidableEq

def KeyHistory.next {Value : Type} (history : KeyHistory) (action : CounterAction Value) : KeyHistory :=
  match action with
  | .set _ => .written
  | .delete => .removed
  | .increment _ | .decrement _ => match history with
      | .untouched => .counted
      | .removed => .recounted
      | other => other

def keyHistory (calls : List CounterCall) (key : RawKey) : KeyHistory :=
  calls.foldl (fun history call => if call.target = key then history.next call.action else history)
    .untouched

/-- The tables in use: the width of the values under a raw key, none outside counter tables. -/
abbrev Widths := RawKey → Option Nat

structure CounterCall.Typed (widths : Widths) (call : CounterCall) : Prop where
  width : widths call.target = some (VarUIntEncoded.width call.Value)
  short : call.target.length < 2 ^ 63

/-- The database holds these values under the counter keys. -/
def Counts (widths : Widths) (db : DB) (ts : Timestamp) (values : RawKey → Option Nat) : Prop :=
  ∀ key width, widths key = some width →
    amounts (IndexingTask.decodeCell (db.get ts key) : Except Error (Option U128)) = .ok (values key) ∧
      ∀ value ∈ values key, value < 2 ^ width

structure ReadsAs (widths : Widths) (task : IndexingTask) (values : RawKey → Option Nat) : Prop where
  get : ∀ (Key Value : Type) [Encode Key] [Encode Value] [Decode Value] [VarUIntEncoded Value]
    (table : Table Key Value) (key : Key),
    widths (table.encodeKey key) = some (VarUIntEncoded.width Value) →
    amounts (task.get table key) = .ok (values (table.encodeKey key))
  multiGet : ∀ (Key Value : Type) [Encode Key] [Encode Value] [Decode Value] [VarUIntEncoded Value]
    (table : Table Key Value) (keys : List Key),
    (∀ key ∈ keys, widths (table.encodeKey key) = some (VarUIntEncoded.width Value)) →
    ∃ out, task.multiGet table keys = .ok out ∧
      (out.map (fun entry => (entry.1, entry.2.map amountOf))).Perm
        (keys.map (fun key => (key, values (table.encodeKey key))))

section Reading

variable {Value : Type} [Encode Value] [Decode Value] [VarUIntEncoded Value]

theorem amounts_decodeCell (cell : Cell) (value : Option Nat) :
    amounts (IndexingTask.decodeCell cell : Except Error (Option Value)) = .ok value ↔
      amounts (IndexingTask.decodeCell cell : Except Error (Option U128)) = .ok value ∧
        ∀ number ∈ value, number < 2 ^ VarUIntEncoded.width Value := by
  cases cell with
  | error failure => simp [amounts, IndexingTask.decodeCell, bind, Except.bind, Except.map]
  | ok stored =>
      cases stored with
      | none =>
          simp only [amounts, IndexingTask.decodeCell, bind, Except.bind, pure, Except.pure, Except.map,
            Option.map_none, Except.ok.injEq]
          constructor
          · rintro rfl
            exact ⟨rfl, by simp⟩
          · intro same
            exact same.1
      | some bytes =>
          have agree := @VarUIntEncoded.decode_iff Value _ _ _ bytes
          cases narrow : (decodeAll bytes : Except DecodingError Value) with
          | ok read =>
              have wide := (agree read).mp narrow
              have bound := VarUIntEncoded.fits read
              simp only [amounts, IndexingTask.decodeCell, bind, Except.bind, pure, Except.pure,
                Except.map, narrow, wide, liftDecoding, Option.map_some, Except.ok.injEq]
              constructor
              · rintro rfl
                exact ⟨rfl, by simpa [amountOf] using bound⟩
              · intro same
                exact same.1
          | error failure =>
              cases wide : (decodeAll bytes : Except DecodingError U128) with
              | error other =>
                  simp [amounts, IndexingTask.decodeCell, bind, Except.bind, narrow, wide, liftDecoding,
                    Except.map]
              | ok read =>
                  have large : ¬ read.toNat < 2 ^ VarUIntEncoded.width Value := by
                    intro small
                    obtain ⟨number, same⟩ := @VarUIntEncoded.covers Value _ _ _ read small
                    rw [(agree number).mpr (same ▸ wide)] at narrow
                    cases narrow
                  simp only [amounts, IndexingTask.decodeCell, bind, Except.bind, pure, Except.pure,
                    Except.map, narrow, wide, liftDecoding, Option.map_some, Except.ok.injEq,
                    reduceCtorEq, false_iff]
                  rintro ⟨rfl, fits⟩
                  exact large (fits _ rfl)

end Reading

/-- One folded action stands for all calls on a key since the task began. -/
inductive Folded (base : Option Nat) : KeyHistory → Option Nat → Option StorageAction → Prop
  | untouched : Folded base .untouched base none
  | counted (op : MergeOperation) (value : Nat) (total : (value : Int) = base.getD 0 + op.delta) :
      Folded base .counted (some value) (some (.merge op))
  | written (bytes : RawValue) (amount : U128) (decodes : decodeAll bytes = .ok amount) :
      Folded base .written (some amount.toNat) (some (.set bytes))
  | removed : Folded base .removed none (some .delete)
  | recounted (op : MergeOperation) (value : Nat) (total : (value : Int) = op.delta) :
      Folded base .recounted (some value) (some (.merge op))

namespace IndexingTask

theorem maybeStoreOriginalKv_readable {task : IndexingTask} {key : RawKey} {stored : Option RawValue}
    (readable : task.db.get task.readTs key = .ok stored) :
    ∃ tracked, task.maybeStoreOriginalKv key = .ok tracked ∧ SameSource task tracked ∧
      tracked.writeBuffer = task.writeBuffer := by
  simp only [maybeStoreOriginalKv]
  cases originals : task.originalKvs with
  | none => exact ⟨task, rfl, SameSource.refl task, rfl⟩
  | some kvs =>
      by_cases present : key ∈ kvs
      · exact ⟨task, by simp [present], SameSource.refl task, rfl⟩
      · refine ⟨{ task with originalKvs := some (kvs.insert key (PreviousValue.ofOption stored)) },
          ?_, ⟨rfl, rfl, rfl, by simp [originals]⟩, rfl⟩
        simp only [if_neg present, readable, bind, Except.bind, pure, Except.pure]

/-- The key holds the action now; the other keys and the source of the task are as before. -/
structure Buffers (task : IndexingTask) (key : RawKey) (action : StorageAction)
    (after : IndexingTask) : Prop where
  source : SameSource task after
  here : after.writeBuffer.lookup key = some action
  elsewhere : ∀ other, other ≠ key → after.writeBuffer.lookup other = task.writeBuffer.lookup other

theorem buffers_buffer {task tracked : IndexingTask} (key : RawKey) (action : StorageAction)
    (source : SameSource task tracked) (same : tracked.writeBuffer = task.writeBuffer) :
    task.Buffers key action (tracked.buffer key action) where
  source := source.trans ⟨rfl, rfl, rfl, rfl⟩
  here := AList.lookup_insert _
  elsewhere other different := by
    rw [buffer, AList.lookup_insert_ne different, same]

theorem allocate_short {bytes : List BigEndian.Byte} (short : bytes.length < 2 ^ 63) :
    allocate bytes = .ok bytes := by
  rw [allocate, if_pos short]

theorem length_encode_amount (amount : U128) : (encode amount).length < 2 ^ 63 := by
  have short := VarUInt.length_data_le amount.toNat
  have listed : (encode amount).length =
      (BigEndian.trim (BigEndian.toBytes 16 amount.toNat)).length + 1 := rfl
  omega

section Calls

variable {task : IndexingTask} {key : RawKey} {stored : Option RawValue}
variable (short : key.length < 2 ^ 63) (readable : task.db.get task.readTs key = .ok stored)
include short readable

theorem setRaw_buffers (amount : U128) :
    ∃ after, task.setRaw key (encode amount) = .ok after ∧
      task.Buffers key (.set (encode amount)) after := by
  obtain ⟨tracked, storing, source, same⟩ := maybeStoreOriginalKv_readable readable
  refine ⟨tracked.buffer key (.set (encode amount)), ?_, buffers_buffer key _ source same⟩
  simp only [setRaw, allocate_short short, allocate_short (length_encode_amount amount), storing, bind,
    Except.bind, pure, Except.pure]

theorem deleteRaw_buffers :
    ∃ after, task.deleteRaw key = .ok after ∧ task.Buffers key .delete after := by
  obtain ⟨tracked, storing, source, same⟩ := maybeStoreOriginalKv_readable readable
  refine ⟨tracked.buffer key .delete, ?_, buffers_buffer key _ source same⟩
  simp only [deleteRaw, allocate_short short, storing, bind, Except.bind, pure, Except.pure]

theorem mergeOpRaw_buffers (op : MergeOperation) {base current : Option Nat} {history : KeyHistory}
    (folded : Folded base history current (task.writeBuffer.lookup key))
    (baseBound : base.getD 0 < 2 ^ 128) (currentBound : current.getD 0 < 2 ^ 128)
    (above : 0 ≤ (current.getD 0 : Int) + op.delta) (below : current.getD 0 + op.delta < 2 ^ 128)
    (next : KeyHistory) (counts : ∀ amount : U128, next = history.next (.increment amount)) :
    ∃ after action, task.mergeOpRaw key op = .ok after ∧ task.Buffers key action after ∧
      Folded base next (some ((current.getD 0 : Int) + op.delta).toNat) (some action) := by
  obtain ⟨tracked, storing, source, same⟩ := maybeStoreOriginalKv_readable readable
  have looked : tracked.writeBuffer.lookup key = task.writeBuffer.lookup key := by rw [same]
  have total : ((((current.getD 0 : Int) + op.delta).toNat : Nat) : Int) = current.getD 0 + op.delta :=
    Int.toNat_of_nonneg above
  simp only [mergeOpRaw, allocate_short short, storing, looked, bind, Except.bind, pure, Except.pure]
  obtain rfl := counts 0
  generalize task.writeBuffer.lookup key = pending at folded
  cases folded with
  | untouched =>
      exact ⟨_, _, rfl, buffers_buffer key _ source same, .counted op _ total⟩
  | counted existing value exact =>
      have combined := MergeOperation.combine_delta existing op (by
        simp only [Option.getD_some] at above
        omega) (by
        simp only [Option.getD_some] at below
        omega)
      refine ⟨_, _, rfl, buffers_buffer key _ source same, .counted _ _ ?_⟩
      rw [total, combined, Option.getD_some, exact]
      omega
  | written bytes amount decodes =>
      have performed := MergeOperation.perform_delta op amount above below
      have applied : liftDecoding (applyMergeToValue op bytes) = .ok (op.perform amount) := by
        simp only [applyMergeToValue, decodes, bind, Except.bind, pure, Except.pure, liftDecoding]
      simp only [applied]
      refine ⟨_, _, rfl, buffers_buffer key _ source same, ?_⟩
      have value : ((amount.toNat : Int) + op.delta).toNat = (op.perform amount).toNat := by omega
      rw [Option.getD_some, value]
      exact .written _ _ (decodeAll_encode (op.perform amount) trivial)
  | removed =>
      refine ⟨_, _, rfl, buffers_buffer key _ source same, .recounted op _ ?_⟩
      rw [total]
      simp
  | recounted existing value exact =>
      have combined := MergeOperation.combine_delta existing op (by
        simp only [Option.getD_some] at above
        omega) (by
        simp only [Option.getD_some] at below
        omega)
      refine ⟨_, _, rfl, buffers_buffer key _ source same, .recounted _ _ ?_⟩
      rw [total, combined, Option.getD_some, exact]

end Calls

end IndexingTask

/-- One call keeps the fold of its key. -/
theorem CounterCall.run_folded {task : IndexingTask} (call : CounterCall) {stored : Option RawValue}
    {base current : Option Nat} {history : KeyHistory}
    (short : call.target.length < 2 ^ 63)
    (readable : task.db.get task.readTs call.target = .ok stored)
    (folded : Folded base history current (task.writeBuffer.lookup call.target))
    (baseBound : base.getD 0 < 2 ^ 128) (currentBound : current.getD 0 < 2 ^ 128)
    (legal : call.action.Legal current) :
    ∃ after action, call.toTaskCall.run task = .ok after ∧ task.Buffers call.target action after ∧
      Folded base (history.next call.action) (call.action.refer current) (some action) := by
  obtain ⟨Key, Value, table, key, action⟩ := call
  have wide : 2 ^ VarUIntEncoded.width Value ≤ 2 ^ 128 :=
    Nat.pow_le_pow_right (by decide) VarUIntEncoded.width_le
  cases action with
  | set value =>
      obtain ⟨after, ran, buffers⟩ := IndexingTask.setRaw_buffers short readable
        (VarUIntEncoded.asU128 value)
      refine ⟨after, _, ?_, buffers, .written _ _ (decodeAll_encode _ trivial)⟩
      rw [← ran]
      exact congrArg (task.setRaw _) (VarUIntEncoded.encode_eq value)
  | delete =>
      obtain ⟨after, ran, buffers⟩ := IndexingTask.deleteRaw_buffers short readable
      exact ⟨after, _, ran, buffers, .removed⟩
  | increment amount =>
      have value : ((current.getD 0 : Int) +
          (MergeOperation.increment (VarUIntEncoded.asU128 amount)).delta).toNat =
          current.getD 0 + amountOf amount := by
        simp only [MergeOperation.delta, MergeOperation.gain, MergeOperation.loss, amountOf]
        omega
      obtain ⟨after, action, ran, buffers, next⟩ := IndexingTask.mergeOpRaw_buffers short readable
        (.increment (VarUIntEncoded.asU128 amount)) folded baseBound currentBound
        (by simp only [MergeOperation.delta, MergeOperation.gain, MergeOperation.loss]; omega)
        (by
          simp only [CounterAction.Legal, amountOf] at legal
          simp only [MergeOperation.delta, MergeOperation.gain, MergeOperation.loss]
          omega)
        _ (fun _ => rfl)
      rw [value] at next
      exact ⟨after, action, ran, buffers, next⟩
  | decrement amount =>
      simp only [CounterAction.Legal, amountOf] at legal
      have value : ((current.getD 0 : Int) +
          (MergeOperation.decrement (VarUIntEncoded.asU128 amount)).delta).toNat =
          current.getD 0 - amountOf amount := by
        simp only [MergeOperation.delta, MergeOperation.gain, MergeOperation.loss, amountOf]
        omega
      obtain ⟨after, action, ran, buffers, next⟩ := IndexingTask.mergeOpRaw_buffers short readable
        (.decrement (VarUIntEncoded.asU128 amount)) folded baseBound currentBound
        (by simp only [MergeOperation.delta, MergeOperation.gain, MergeOperation.loss]; omega)
        (by simp only [MergeOperation.delta, MergeOperation.gain, MergeOperation.loss]; omega)
        _ (fun _ => rfl)
      rw [value] at next
      exact ⟨after, action, ran, buffers, next⟩

theorem reference_snoc (values : RawKey → Option Nat) (calls : List CounterCall) (call : CounterCall)
    (key : RawKey) :
    reference values (calls ++ [call]) key =
      if call.target = key then call.action.refer (reference values calls key)
      else reference values calls key := by
  simp only [reference, List.foldl_append, List.foldl_cons, List.foldl_nil, CounterCall.refer]
  split
  · rename_i same
    rw [← same, Function.update_self]
  · rename_i different
    rw [Function.update_of_ne (fun equal => different equal.symm)]

theorem keyHistory_snoc (calls : List CounterCall) (call : CounterCall) (key : RawKey) :
    keyHistory (calls ++ [call]) key =
      if call.target = key then (keyHistory calls key).next call.action else keyHistory calls key := by
  simp only [keyHistory, List.foldl_append, List.foldl_cons, List.foldl_nil]

theorem legalCalls_snoc (values : RawKey → Option Nat) (calls : List CounterCall)
    (call : CounterCall) :
    LegalCalls values (calls ++ [call]) ↔
      LegalCalls values calls ∧ call.action.Legal (reference values calls call.target) := by
  induction calls generalizing values with
  | nil => simp [LegalCalls, reference]
  | cons first calls ih =>
      rw [List.cons_append, LegalCalls, LegalCalls, ih, and_assoc]
      rfl

theorem refer_bound {call : CounterCall} {current : Option Nat} (legal : call.action.Legal current)
    (bound : ∀ value ∈ current, value < 2 ^ VarUIntEncoded.width call.Value) :
    ∀ value ∈ call.action.refer current, value < 2 ^ VarUIntEncoded.width call.Value := by
  have positive : 0 < 2 ^ VarUIntEncoded.width call.Value := Nat.two_pow_pos _
  have now : current.getD 0 < 2 ^ VarUIntEncoded.width call.Value := by
    cases current with
    | none => exact positive
    | some value => exact bound value rfl
  obtain ⟨Key, Value, table, key, action⟩ := call
  intro value member
  cases action with
  | set amount =>
      obtain rfl : amountOf amount = value := Option.some.inj member
      exact VarUIntEncoded.fits amount
  | delete => cases member
  | increment amount =>
      obtain rfl : current.getD 0 + amountOf amount = value := Option.some.inj member
      exact legal
  | decrement amount =>
      obtain rfl : current.getD 0 - amountOf amount = value := Option.some.inj member
      exact lt_of_le_of_lt (Nat.sub_le _ _) now

/-- After any legal calls every counter key is folded, and the calls have not failed. -/
theorem runCalls_folded {widths : Widths} {task : IndexingTask} {values : RawKey → Option Nat}
    (calls : List CounterCall) (fresh : task.writeBuffer = ∅)
    (counts : Counts widths task.db task.readTs values)
    (typed : ∀ call ∈ calls, call.Typed widths) (legal : LegalCalls values calls) :
    ∃ after, task.runCalls (calls.map CounterCall.toTaskCall) = .ok after ∧
      IndexingTask.SameSource task after ∧
      ∀ key width, widths key = some width →
        Folded (values key) (keyHistory calls key) (reference values calls key)
          (after.writeBuffer.lookup key) ∧
        ∀ value ∈ reference values calls key, value < 2 ^ width := by
  induction calls using List.reverseRecOn with
  | nil =>
      refine ⟨task, rfl, IndexingTask.SameSource.refl task, ?_⟩
      intro key width known
      rw [fresh]
      exact ⟨.untouched, (counts key width known).2⟩
  | append_singleton calls call ih =>
      obtain ⟨middle, ran, source, folded⟩ := ih
        (fun other member => typed other (List.mem_append_left _ member))
        ((legalCalls_snoc _ _ _).mp legal).1
      have fits := typed call (by simp)
      have allowed : call.action.Legal (reference values calls call.target) :=
        ((legalCalls_snoc _ _ _).mp legal).2
      have wide : 2 ^ VarUIntEncoded.width call.Value ≤ 2 ^ 128 :=
        Nat.pow_le_pow_right (by decide) VarUIntEncoded.width_le
      have small (value : Option Nat)
          (bound : ∀ number ∈ value, number < 2 ^ VarUIntEncoded.width call.Value) :
          value.getD 0 < 2 ^ 128 := by
        cases value with
        | none => decide
        | some number => exact lt_of_lt_of_le (bound number rfl) wide
      obtain ⟨pending, bound⟩ := folded call.target _ fits.width
      obtain ⟨reads, baseBound⟩ := counts call.target _ fits.width
      obtain ⟨stored, readable⟩ : ∃ stored, middle.db.get middle.readTs call.target = .ok stored := by
        rw [source.db, source.readTs]
        cases cell : task.db.get task.readTs call.target with
        | ok stored => exact ⟨stored, rfl⟩
        | error failure =>
            rw [cell] at reads
            cases reads
      obtain ⟨after, action, stepped, buffers, next⟩ := call.run_folded fits.short readable pending
        (small _ baseBound) (small _ bound) allowed
      refine ⟨after, ?_, source.trans buffers.source, ?_⟩
      · rw [List.map_append, List.map_singleton, IndexingTask.runCalls_snoc, ran]
        exact stepped
      · intro key width known
        rw [keyHistory_snoc, reference_snoc]
        by_cases same : call.target = key
        · subst same
          obtain rfl : VarUIntEncoded.width call.Value = width :=
            Option.some.inj (fits.width.symm.trans known)
          rw [if_pos rfl, if_pos rfl, buffers.here]
          exact ⟨next, refer_bound allowed bound⟩
        · rw [if_neg same, if_neg same, buffers.elsewhere key (fun equal => same equal.symm)]
          exact folded key width known

theorem amounts_encode (amount : U128) :
    amounts (IndexingTask.decodeCell (.ok (some (encode amount))) : Except Error (Option U128)) =
      .ok (some amount.toNat) := by
  simp only [amounts, IndexingTask.decodeCell, bind, Except.bind, pure, Except.pure,
    decodeAll_encode amount trivial, liftDecoding, Except.map, Option.map_some]
  rfl

theorem getRaw_merge {task : IndexingTask} {key : RawKey} {op : MergeOperation} {base : Option Nat}
    (pending : task.writeBuffer.lookup key = some (.merge op))
    (reads : amounts (IndexingTask.decodeCell (task.db.get task.readTs key) :
      Except Error (Option U128)) = .ok base) :
    ∃ start : U128, start.toNat = base.getD 0 ∧
      task.getRaw key = .ok (some (encode (op.perform start))) := by
  simp only [IndexingTask.getRaw, pending]
  cases cell : task.db.get task.readTs key with
  | error failure =>
      rw [cell] at reads
      cases reads
  | ok stored =>
      rw [cell] at reads
      cases stored with
      | none =>
          simp only [amounts, IndexingTask.decodeCell, bind, Except.bind, pure, Except.pure, Except.map,
            Option.map_none, Except.ok.injEq] at reads
          subst reads
          exact ⟨0, rfl, rfl⟩
      | some bytes =>
          cases decoded : (decodeAll bytes : Except DecodingError U128) with
          | error failure =>
              simp only [amounts, IndexingTask.decodeCell, bind, Except.bind, decoded, liftDecoding,
                Except.map, reduceCtorEq] at reads
          | ok start =>
              simp only [amounts, IndexingTask.decodeCell, bind, Except.bind, pure, Except.pure, decoded,
                liftDecoding, Except.map, Option.map_some, Except.ok.injEq] at reads
              subst reads
              refine ⟨start, rfl, ?_⟩
              simp only [bind, Except.bind, pure, Except.pure, decoded, liftDecoding]

theorem perform_recounted {op : MergeOperation} {value : Nat} (total : (value : Int) = op.delta)
    (start : U128) : (op.perform start).toNat = min (start.toNat + value) (2 ^ 128 - 1) := by
  have bound := start.isLt
  cases op with
  | increment amount =>
      simp only [MergeOperation.delta, MergeOperation.gain, MergeOperation.loss] at total
      rw [MergeOperation.perform, saturatingAdd]
      split
      · rename_i inside
        rw [BitVec.toNat_add, Nat.mod_eq_of_lt inside]
        omega
      · rw [BitVec.toNat_allOnes]
        omega
  | decrement amount =>
      simp only [MergeOperation.delta, MergeOperation.gain, MergeOperation.loss] at total
      rw [MergeOperation.perform, toNat_saturatingSub]
      omega

/-- A folded key reads as its reference value unless it was deleted and counted again over a
stored amount. -/
theorem Folded.reads_iff {task : IndexingTask} {key : RawKey} {base current : Option Nat}
    {history : KeyHistory}
    (folded : Folded base history current (task.writeBuffer.lookup key))
    (reads : amounts (IndexingTask.decodeCell (task.db.get task.readTs key) :
      Except Error (Option U128)) = .ok base)
    (bound : ∀ value ∈ current, value < 2 ^ 128) :
    amounts (IndexingTask.decodeCell (task.getRaw key) : Except Error (Option U128)) = .ok current ↔
      (history = .recounted → base.getD 0 = 0 ∨ current = some (2 ^ 128 - 1)) := by
  generalize pending : task.writeBuffer.lookup key = action at folded
  cases folded with
  | untouched =>
      simp only [IndexingTask.getRaw, pending, reads, reduceCtorEq, false_implies]
  | counted op value total =>
      obtain ⟨start, same, raw⟩ := getRaw_merge pending reads
      have small := bound value rfl
      have performed := MergeOperation.perform_delta op start (by omega) (by omega)
      rw [raw, amounts_encode]
      simp only [Except.ok.injEq, Option.some.injEq, reduceCtorEq, false_implies, iff_true]
      omega
  | written bytes amount decodes =>
      simp only [IndexingTask.getRaw, pending, amounts, IndexingTask.decodeCell, bind, Except.bind, pure,
        Except.pure, decodes, liftDecoding, Except.map, Option.map_some, reduceCtorEq, false_implies,
        iff_true]
      rfl
  | removed =>
      simp only [IndexingTask.getRaw, pending, reduceCtorEq, false_implies, iff_true]
      rfl
  | recounted op value total =>
      obtain ⟨start, same, raw⟩ := getRaw_merge pending reads
      have small := bound value rfl
      rw [raw, amounts_encode, perform_recounted total]
      simp only [Except.ok.injEq, Option.some.injEq, true_implies]
      omega

theorem mapM_reads {Key Value : Type} [Encode Key] [Encode Value] [Decode Value]
    [VarUIntEncoded Value] (task : IndexingTask) (table : Table Key Value)
    (values : RawKey → Option Nat) (keys : List Key)
    (reads : ∀ key ∈ keys, amounts (task.get table key) = .ok (values (table.encodeKey key))) :
    ∃ out, keys.mapM (fun key => do return (key, ← task.get table key)) = .ok out ∧
      out.map (fun entry => (entry.1, entry.2.map amountOf)) =
        keys.map (fun key => (key, values (table.encodeKey key))) := by
  induction keys with
  | nil => exact ⟨[], rfl, rfl⟩
  | cons key keys ih =>
      obtain ⟨out, mapped, listed⟩ := ih (fun other member => reads other (List.mem_cons_of_mem key member))
      have first := reads key List.mem_cons_self
      cases read : task.get table key with
      | error failure =>
          rw [read] at first
          cases first
      | ok value =>
          rw [read] at first
          refine ⟨(key, value) :: out, ?_, ?_⟩
          · rw [List.mapM_cons, mapped, read]
            rfl
          · rw [List.map_cons, List.map_cons, listed, ← Except.ok.inj first]

theorem multiGet_reads {Key Value : Type} [Encode Key] [Encode Value] [Decode Value]
    [VarUIntEncoded Value] (task : IndexingTask) (table : Table Key Value)
    (values : RawKey → Option Nat) (keys : List Key)
    (reads : ∀ key ∈ keys, amounts (task.get table key) = .ok (values (table.encodeKey key))) :
    ∃ out, task.multiGet table keys = .ok out ∧
      (out.map (fun entry => (entry.1, entry.2.map amountOf))).Perm
        (keys.map (fun key => (key, values (table.encodeKey key)))) := by
  have order : ((keys.filter (fun key => (task.writeBuffer.lookup (table.encodeKey key)).isSome)) ++
      (keys.filter (fun key => (task.writeBuffer.lookup (table.encodeKey key)).isNone)).insertionSort
        (fun first second => table.encodeKey first ≤ table.encodeKey second)).Perm keys := by
    have complement : (fun key => (task.writeBuffer.lookup (table.encodeKey key)).isNone) =
        (fun key => !(task.writeBuffer.lookup (table.encodeKey key)).isSome) := by
      funext key
      cases task.writeBuffer.lookup (table.encodeKey key) <;> rfl
    refine ((List.perm_insertionSort _ _).append_left _).trans ?_
    rw [complement]
    exact List.filter_append_perm _ keys
  obtain ⟨out, mapped, listed⟩ := mapM_reads task table values _
    (fun key member => reads key (order.mem_iff.mp member))
  refine ⟨out, mapped, ?_⟩
  rw [listed]
  exact order.map _

theorem keyHistory_touched {calls : List CounterCall} {key : RawKey}
    (touched : keyHistory calls key ≠ .untouched) : ∃ call ∈ calls, call.target = key := by
  induction calls using List.reverseRecOn with
  | nil => exact absurd rfl touched
  | append_singleton calls call ih =>
      by_cases same : call.target = key
      · exact ⟨call, by simp, same⟩
      · rw [keyHistory_snoc, if_neg same] at touched
        obtain ⟨other, member, found⟩ := ih touched
        exact ⟨other, List.mem_append_left _ member, found⟩

/-- A task reads its own writes exactly when no key with a stored amount was deleted and then
counted up again, short of the saturated value. -/
theorem own_writes_iff (task : IndexingTask) (widths : Widths) (values : RawKey → Option Nat)
    (calls : List CounterCall) (fresh : task.writeBuffer = ∅)
    (counts : Counts widths task.db task.readTs values)
    (typed : ∀ call ∈ calls, call.Typed widths) (legal : LegalCalls values calls) :
    (∃ after, task.runCalls (calls.map CounterCall.toTaskCall) = .ok after ∧
      ReadsAs widths after (reference values calls)) ↔
    ∀ key, keyHistory calls key = .recounted →
      (values key).getD 0 = 0 ∨ reference values calls key = some (2 ^ 128 - 1) := by
  obtain ⟨after, ran, source, folded⟩ := runCalls_folded calls fresh counts typed legal
  have readsIff (Key Value : Type) [Encode Key] [Encode Value] [Decode Value] [VarUIntEncoded Value]
      (table : Table Key Value) (key : Key)
      (known : widths (table.encodeKey key) = some (VarUIntEncoded.width Value)) :
      amounts (after.get table key) = .ok (reference values calls (table.encodeKey key)) ↔
        (keyHistory calls (table.encodeKey key) = .recounted →
          (values (table.encodeKey key)).getD 0 = 0 ∨
            reference values calls (table.encodeKey key) = some (2 ^ 128 - 1)) := by
    obtain ⟨pending, bound⟩ := folded _ _ known
    have wide : 2 ^ VarUIntEncoded.width Value ≤ 2 ^ 128 :=
      Nat.pow_le_pow_right (by decide) VarUIntEncoded.width_le
    have base := (counts _ _ known).1
    rw [← source.db, ← source.readTs] at base
    rw [IndexingTask.get, amounts_decodeCell, pending.reads_iff base
      (fun value member => lt_of_lt_of_le (bound value member) wide)]
    exact and_iff_left bound
  constructor
  · rintro ⟨reached, again, reads⟩ key recounted
    obtain rfl : after = reached := Except.ok.inj (ran.symm.trans again)
    obtain ⟨call, member, rfl⟩ := keyHistory_touched (by rw [recounted]; decide)
    have known := (typed call member).width
    exact (readsIff _ _ call.table call.key known).mp (reads.get _ _ call.table call.key known) recounted
  · intro safe
    have get (Key Value : Type) [Encode Key] [Encode Value] [Decode Value] [VarUIntEncoded Value]
        (table : Table Key Value) (key : Key)
        (known : widths (table.encodeKey key) = some (VarUIntEncoded.width Value)) :
        amounts (after.get table key) = .ok (reference values calls (table.encodeKey key)) :=
      (readsIff Key Value table key known).mpr (safe _)
    refine ⟨after, ran, get, ?_⟩
    intro Key Value _ _ _ _ table keys known
    exact multiGet_reads after table _ keys (fun key member => get Key Value table key (known key member))

def oneCounter : Widths := fun key => if key = TxCountByAddressKV.encodeKey [1] then some 64 else none

def oneCount (count : Nat) : RawKey → Option Nat :=
  fun key => if key = TxCountByAddressKV.encodeKey [1] then some count else none

def countCall (action : CounterAction U64) : CounterCall where
  Key := ScriptPubKey
  Value := U64
  table := TxCountByAddressKV
  key := [1]
  action := action

def countingTask (count : U64) : IndexingTask :=
  (StorageHandler.openDb (countedDb [1] count)).beginIndexingTask true

theorem counts_countingTask (count : U64)
    (stored : (countingTask count).db.get (countingTask count).readTs
      (TxCountByAddressKV.encodeKey [1]) = .ok (some (encode count))) :
    Counts oneCounter (countingTask count).db (countingTask count).readTs (oneCount count.toNat) := by
  intro key width known
  simp only [oneCounter] at known
  split at known
  · rename_i same
    subst same
    have value : oneCount count.toNat (TxCountByAddressKV.encodeKey [1]) = some count.toNat := rfl
    obtain rfl : 64 = width := Option.some.inj known
    rw [stored, value, VarUIntEncoded.encode_eq count, amounts_encode]
    have widened : (VarUIntEncoded.asU128 count).toNat = count.toNat := toNat_widen (by decide) count
    rw [widened]
    exact ⟨rfl, by simpa using count.isLt⟩
  · cases known

theorem typed_countCall (action : CounterAction U64) : (countCall action).Typed oneCounter where
  width := if_pos rfl
  short := by
    have length : (TxCountByAddressKV.encodeKey [1]).length < 2 ^ 63 := by decide +kernel
    exact length

/-- Deleting and counting again over a stored zero reads back the new count. -/
theorem own_writes_over_zero :
    ∃ after, (countingTask 0).runCalls
        ([countCall .delete, countCall (.increment 5)].map CounterCall.toTaskCall) = .ok after ∧
      ReadsAs oneCounter after
        (reference (oneCount 0) [countCall .delete, countCall (.increment 5)]) := by
  refine (own_writes_iff (countingTask 0) oneCounter (oneCount 0) [countCall .delete, countCall (.increment 5)]
    rfl (counts_countingTask 0 (by decide +kernel)) ?_ ⟨trivial, by decide +kernel, trivial⟩).mpr ?_
  · intro call member
    simp only [List.mem_cons, List.not_mem_nil, or_false] at member
    rcases member with rfl | rfl
    · exact typed_countCall _
    · exact typed_countCall _
  · intro key _
    left
    rw [oneCount]
    split <;> rfl

/-- A stored 10 is deleted and the key incremented by 5: the task reads 15, not 5. -/
theorem deleted_count_revives :
    Counts oneCounter (countingTask 10).db (countingTask 10).readTs (oneCount 10) ∧
    LegalCalls (oneCount 10) [countCall .delete, countCall (.increment 5)] ∧
    ¬ ∃ after, (countingTask 10).runCalls
        ([countCall .delete, countCall (.increment 5)].map CounterCall.toTaskCall) = .ok after ∧
      ReadsAs oneCounter after
        (reference (oneCount 10) [countCall .delete, countCall (.increment 5)]) := by
  refine ⟨counts_countingTask 10 (by decide +kernel), ⟨trivial, by decide +kernel, trivial⟩, ?_⟩
  rintro ⟨after, ran, reads⟩
  have expected := reads.get ScriptPubKey U64 TxCountByAddressKV [1] rfl
  have actual : ((countingTask 10).runCalls
      ([countCall .delete, countCall (.increment 5)].map CounterCall.toTaskCall)).toOption.map
        (fun task => (amounts (task.get TxCountByAddressKV [1])).toOption) = some (some (some 15)) := by
    decide +kernel
  rw [ran] at actual
  have read : (amounts (after.get TxCountByAddressKV [1])).toOption = some (some 15) :=
    Option.some.inj actual
  rw [expected] at read
  exact absurd read (by decide +kernel)

end Symphony
