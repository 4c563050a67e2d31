import Symphony.Sync.RuneFlow
import Symphony.Sync.ScriptTotal

/-! Scripts that do not overflow.

The builds differ in what they do when an addition or a subtraction overflows: some panic, others
wrap. `Steady` says that no build comes that far: from a state all of them run alike. -/

namespace Symphony

open BigEndian (Byte)
open Encdec
open VersionedLog (replay_induction)

def Error.Overflows (failure : Error) : Prop :=
  failure = .panicked "attempt to add with overflow" ∨
    failure = .panicked "attempt to subtract with overflow"

instance (failure : Error) : Decidable failure.Overflows :=
  inferInstanceAs (Decidable (_ ∨ _))

def InRange {α : Type} (result : Except Error α) : Prop :=
  ∀ failure, result = .error failure → ¬ failure.Overflows

section InRange

variable {α β : Type} {result : Except Error α}

theorem inRange_ok (value : α) : InRange (.ok value : Except Error α) := by
  intro failure impossible
  cases impossible

theorem inRange_error {failure : Error} (other : ¬ failure.Overflows) :
    InRange (.error failure : Except Error α) := by
  intro same equal
  cases equal
  exact other

theorem InRange.bind {next : α → Except Error β} (first : InRange result)
    (rest : ∀ value, result = .ok value → InRange (next value)) : InRange (result.bind next) := by
  cases result with
  | error failure => exact inRange_error (first failure rfl)
  | ok value => exact rest value rfl

theorem inRange_liftDecoding (decoded : Except DecodingError α) : InRange (liftDecoding decoded) := by
  cases decoded with
  | error failure => exact inRange_error (by simp [Error.Overflows])
  | ok value => exact inRange_ok value

end InRange

theorem inRange_allocate (bytes : List Byte) : InRange (allocate bytes) := by
  rw [allocate]
  split
  · exact inRange_ok bytes
  · exact inRange_error (by simp [Error.Overflows])

theorem DB.inRange_get (db : DB) (ts : Timestamp) (key : RawKey) : InRange (db.get ts key) := by
  apply replay_induction (inRange_ok none)
  intro op cell inside
  cases op with
  | put target value =>
      simp only [WriteOp.act]
      split
      · exact inRange_ok (some value)
      · exact inside
  | delete target =>
      simp only [WriteOp.act]
      split
      · exact inRange_ok none
      · exact inside
  | merge target operand =>
      simp only [WriteOp.act]
      split
      · cases cell with
        | error failure => exact inside
        | ok existing =>
            simp only [resolveMerge]
            split
            · exact inRange_ok _
            · exact inRange_error (by simp [Error.Overflows])
      · exact inside
  | deleteRange start stop =>
      simp only [WriteOp.act]
      split
      · exact inRange_ok none
      · exact inside

namespace IndexingTask

variable (task : IndexingTask) (key : RawKey)

theorem inRange_getRaw : InRange (task.getRaw key) := by
  rw [getRaw]
  split
  · exact inRange_ok _
  · exact inRange_ok none
  · apply (task.db.inRange_get task.readTs key).bind
    intro stored _
    cases stored with
    | none => exact inRange_ok _
    | some bytes =>
        apply (inRange_liftDecoding (decodeAll bytes : Except DecodingError U128)).bind
        intro base _
        exact inRange_ok _
  · exact task.db.inRange_get task.readTs key

theorem inRange_maybeStoreOriginalKv : InRange (task.maybeStoreOriginalKv key) := by
  rw [maybeStoreOriginalKv]
  split
  · exact inRange_ok task
  · split
    · exact inRange_ok task
    · apply (task.db.inRange_get task.readTs key).bind
      intro original _
      exact inRange_ok _

theorem inRange_setRaw (value : RawValue) : InRange (task.setRaw key value) := by
  apply (inRange_allocate key).bind
  intro key _
  apply (inRange_allocate value).bind
  intro value _
  apply (task.inRange_maybeStoreOriginalKv key).bind
  intro after _
  exact inRange_ok _

theorem inRange_deleteRaw : InRange (task.deleteRaw key) := by
  apply (inRange_allocate key).bind
  intro key _
  apply (task.inRange_maybeStoreOriginalKv key).bind
  intro after _
  exact inRange_ok _

end IndexingTask

namespace Script

variable {α β : Type}

/-- The script has no arithmetic that can overflow, and merges nothing. -/
def Quiet : Script α → Prop
  | .pure _ => True
  | .fail failure => ¬ failure.Overflows
  | .get _ next => ∀ value, (next value).Quiet
  | .set _ _ next => next.Quiet
  | .delete _ next => next.Quiet
  | .mergeOp _ _ _ => False
  | .attach _ _ _ next => next.Quiet

theorem Quiet.bind {script : Script α} {next : α → Script β} (first : script.Quiet)
    (rest : ∀ value, (next value).Quiet) : (script.bind next).Quiet := by
  induction script with
  | pure value => exact rest value
  | fail failure => exact first
  | get key later ih => exact fun value => ih value (first value)
  | set key value later ih => exact ih first
  | delete key later ih => exact ih first
  | mergeOp key op later ih => exact first.elim
  | attach ref indexer data later ih => exact ih first

theorem quiet_lift {result : Except Error α} (inside : InRange result) : (lift result).Quiet := by
  cases result with
  | error failure => exact inside failure rfl
  | ok value => trivial

theorem Quiet.inRange_run {script : Script α} (quiet : script.Quiet) (task : IndexingTask)
    (ctx : IndexingContext) : InRange (script.run task ctx) := by
  induction script generalizing task ctx with
  | pure value => exact inRange_ok _
  | fail failure => exact inRange_error quiet
  | get key next ih =>
      have read := task.inRange_getRaw key.raw
      simp only [Script.run]
      cases found : task.getRaw key.raw with
      | error failure => exact inRange_error (read failure found)
      | ok value => exact ih value (quiet value) task ctx
  | set key value next ih =>
      have step := task.inRange_setRaw key.raw value
      simp only [Script.run]
      cases stepped : task.setRaw key.raw value with
      | error failure => exact inRange_error (step failure stepped)
      | ok after => exact ih quiet after ctx
  | delete key next ih =>
      have step := task.inRange_deleteRaw key.raw
      simp only [Script.run]
      cases stepped : task.deleteRaw key.raw with
      | error failure => exact inRange_error (step failure stepped)
      | ok after => exact ih quiet after ctx
  | mergeOp key op next ih => exact quiet.elim
  | attach ref indexer data next ih => exact ih quiet task (ctx.attachUtxoMetadata ref indexer data)

/-- From the state the scripts of all builds run alike, and to no overflow. -/
def Steady (scripts : Build → Script α) (state : TableState) : Prop :=
  ∀ task ctx, task.tables ctx = state → ∃ result,
    (∀ build, (scripts build).run task ctx = result) ∧ InRange result

theorem Quiet.steady {script : Script α} (quiet : script.Quiet) (state : TableState) :
    Steady (fun _ => script) state :=
  fun task ctx _ => ⟨script.run task ctx, fun _ => rfl, quiet.inRange_run task ctx⟩

theorem Steady.bind {scripts : Build → Script α} {next : Build → α → Script β}
    {middle : α → TableState → Prop} {state : TableState} (build : Build)
    (first : Steady scripts state) (yields : (scripts build).Yields middle state)
    (rest : ∀ value later, middle value later → Steady (fun build => next build value) later) :
    Steady (fun build => (scripts build).bind (next build)) state := by
  rintro task ctx rfl
  rcases first task ctx rfl with ⟨result, same, inside⟩
  simp only [run_bind_eq, same]
  cases result with
  | error failure => exact ⟨.error failure, fun _ => rfl, inRange_error (inside failure rfl)⟩
  | ok reached =>
      rcases reached with ⟨value, after, ctx'⟩
      exact rest value (after.tables ctx') (yields.run (same build)) after ctx' rfl

theorem Quiet.steady_bind {script : Script α} {next : Build → α → Script β} {state : TableState}
    (quiet : script.Quiet) (rest : ∀ value later, Steady (fun build => next build value) later) :
    Steady (fun build => script.bind (next build)) state := by
  rintro task ctx rfl
  have inside := quiet.inRange_run task ctx
  simp only [run_bind_eq]
  cases ran : script.run task ctx with
  | error failure => exact ⟨.error failure, fun _ => rfl, inRange_error (inside failure ran)⟩
  | ok reached => exact rest reached.1 (reached.2.1.tables reached.2.2) reached.2.1 reached.2.2 rfl

section Lift

variable {results : Build → Except Error α} {next : Build → α → Script β} {value : α}
variable {state : TableState}

theorem steady_lift (success : ∀ build, results build = .ok value) :
    Steady (fun build => lift (results build)) state := by
  intro task ctx _
  refine ⟨.ok (value, task, ctx), ?_, inRange_ok _⟩
  intro build
  simp only [success]
  rfl

theorem steady_lift_bind (success : ∀ build, results build = .ok value)
    (rest : Steady (fun build => next build value) state) :
    Steady (fun build => (lift (results build)).bind (next build)) state := by
  simp only [success]
  exact rest

end Lift

end Script

namespace IndexerTable

variable {Key Value : Type} [Encode Key] (kv : IndexerTable Key Value) (key : Key)

theorem quiet_get [Decode Value] : (kv.get key).Quiet := by
  intro stored
  cases stored with
  | none => trivial
  | some bytes =>
      apply Script.quiet_lift
      cases decoded : liftDecoding (decodeAll bytes : Except DecodingError Value) with
      | error failure => exact inRange_error (inRange_liftDecoding _ failure decoded)
      | ok value => exact inRange_ok _

theorem quiet_set [Encode Value] (value : Value) : (kv.set key value).Quiet := trivial

theorem quiet_delete : (kv.delete key).Quiet := trivial

end IndexerTable

end Symphony
