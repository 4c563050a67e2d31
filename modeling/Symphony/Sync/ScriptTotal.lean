import Symphony.Storage.CounterSpec
import Symphony.Sync.ScriptRules

/-! Scripts that run to their end.

`Yields` says what holds if a run succeeds. `Completes` says that it does succeed, given that the
database can be read at the keys the script writes. -/

namespace Symphony

open BigEndian (Byte)
open Encdec

theorem IndexingTask.setRaw_runs {task : IndexingTask} {key : RawKey} {value : RawValue}
    {held : Option RawValue} (short : key.length < 2 ^ 63) (bounded : value.length < 2 ^ 63)
    (found : task.db.get task.readTs key = .ok held) :
    ∃ after, task.setRaw key value = .ok after ∧ SameSource task after := by
  rcases maybeStoreOriginalKv_readable found with ⟨tracked, storing, source, _⟩
  refine ⟨tracked.buffer key (.set value), ?_, source.trans ⟨rfl, rfl, rfl, rfl⟩⟩
  simp only [setRaw, allocate_short short, allocate_short bounded, storing, bind, Except.bind, pure,
    Except.pure]

namespace Script

variable {α β : Type}

/-- The run from the state succeeds and ends in one that meets the condition; merges are left out. -/
def Completes (readable : RawKey → Prop) (post : α → TableState → Prop) :
    Script α → TableState → Prop
  | .pure value, state => post value state
  | .fail _, _ => False
  | .get key next, state =>
      ∃ value, state.cells key.raw = .ok value ∧ (next value).Completes readable post state
  | .set key value next, state => readable key.raw ∧ key.raw.length < 2 ^ 63 ∧
      value.length < 2 ^ 63 ∧ next.Completes readable post (state.write key.raw (.ok (some value)))
  | .delete key next, state => readable key.raw ∧ key.raw.length < 2 ^ 63 ∧
      next.Completes readable post (state.write key.raw (.ok none))
  | .mergeOp _ _ _, _ => False
  | .attach ref indexer data next, state =>
      next.Completes readable post (state.attach ref indexer data)

variable {readable : RawKey → Prop} {post weaker : α → TableState → Prop} {state : TableState}

def Served (readable : RawKey → Prop) (task : IndexingTask) : Prop :=
  ∀ key, readable key → ∃ stored, task.db.get task.readTs key = .ok stored

theorem Served.sameSource {task after : IndexingTask} (served : Served readable task)
    (source : IndexingTask.SameSource task after) : Served readable after := by
  intro key inside
  rw [source.db, source.readTs]
  exact served key inside

theorem Completes.run {script : Script α} {task : IndexingTask} {ctx : IndexingContext}
    (completes : script.Completes readable post (task.tables ctx)) (served : Served readable task) :
    ∃ value after ctx', script.run task ctx = .ok (value, after, ctx') ∧
      post value (after.tables ctx') := by
  induction script generalizing task ctx with
  | pure value => exact ⟨value, task, ctx, rfl, completes⟩
  | fail failure => exact completes.elim
  | get key next ih =>
      rcases completes with ⟨value, found, rest⟩
      have read : task.getRaw key.raw = .ok value := found
      simp only [Script.run, read]
      exact ih value rest served
  | set key value next ih =>
      rcases completes with ⟨inside, short, bounded, rest⟩
      rcases served key.raw inside with ⟨held, found⟩
      rcases IndexingTask.setRaw_runs short bounded found with ⟨middle, step, source⟩
      have tables := (IndexingTask.setRaw_touches step).tables ctx
      rw [IndexingTask.setRaw_getRaw step] at tables
      simp only [Script.run, step]
      exact ih (tables ▸ rest) (served.sameSource source)
  | delete key next ih =>
      rcases completes with ⟨inside, short, rest⟩
      rcases served key.raw inside with ⟨held, found⟩
      rcases IndexingTask.deleteRaw_buffers short found with ⟨middle, step, buffers⟩
      have tables := (IndexingTask.deleteRaw_touches step).tables ctx
      rw [IndexingTask.deleteRaw_getRaw step] at tables
      simp only [Script.run, step]
      exact ih (tables ▸ rest) (served.sameSource buffers.source)
  | mergeOp key op next ih => exact completes.elim
  | attach ref indexer data next ih =>
      simp only [Script.run]
      exact ih (IndexingTask.tables_attach task ctx ref indexer data ▸ completes) served

theorem Completes.and {script : Script α} (completes : script.Completes readable post state)
    (yields : script.Yields weaker state) :
    script.Completes readable (fun value after => post value after ∧ weaker value after) state := by
  induction script generalizing state with
  | pure value => exact ⟨completes, yields⟩
  | fail failure => exact completes.elim
  | get key next ih =>
      rcases completes with ⟨value, found, rest⟩
      exact ⟨value, found, ih value rest (yields value found)⟩
  | set key value next ih =>
      rcases completes with ⟨inside, short, bounded, rest⟩
      exact ⟨inside, short, bounded, ih rest (yields short)⟩
  | delete key next ih =>
      rcases completes with ⟨inside, short, rest⟩
      exact ⟨inside, short, ih rest (yields short)⟩
  | mergeOp key op next ih => exact completes.elim
  | attach ref indexer data next ih => exact ih completes yields

theorem completes_bind (post : β → TableState → Prop) (script : Script α) (next : α → Script β)
    (state : TableState) : (script.bind next).Completes readable post state ↔
      script.Completes readable (fun value after => (next value).Completes readable post after)
        state := by
  induction script generalizing state with
  | pure value => exact Iff.rfl
  | fail failure => exact Iff.rfl
  | get key rest ih =>
      exact exists_congr (fun value => and_congr_right (fun _ => ih value state))
  | set key value rest ih =>
      exact and_congr_right (fun _ => and_congr_right (fun _ => and_congr_right (fun _ => ih _)))
  | delete key rest ih => exact and_congr_right (fun _ => and_congr_right (fun _ => ih _))
  | mergeOp key op rest ih => exact Iff.rfl
  | attach ref indexer data rest ih => exact ih _

theorem Completes.mono {script : Script α} (completes : script.Completes readable post state)
    (implies : ∀ value after, post value after → weaker value after) :
    script.Completes readable weaker state := by
  induction script generalizing state with
  | pure value => exact implies value state completes
  | fail failure => exact completes.elim
  | get key next ih =>
      rcases completes with ⟨value, found, rest⟩
      exact ⟨value, found, ih value rest⟩
  | set key value next ih =>
      rcases completes with ⟨inside, short, bounded, rest⟩
      exact ⟨inside, short, bounded, ih rest⟩
  | delete key next ih =>
      rcases completes with ⟨inside, short, rest⟩
      exact ⟨inside, short, ih rest⟩
  | mergeOp key op next ih => exact completes.elim
  | attach ref indexer data next ih => exact ih completes

theorem Completes.bind {middle : α → TableState → Prop} {after : β → TableState → Prop}
    {script : Script α} {next : α → Script β}
    (first : script.Completes readable (fun _ _ => True) state) (yields : script.Yields middle state)
    (second : ∀ value later, middle value later → (next value).Completes readable after later) :
    (script.bind next).Completes readable after state := by
  rw [completes_bind]
  exact (first.and yields).mono (fun value later both => second value later both.2)

theorem bind_assoc {γ : Type} (script : Script α) (next : α → Script β)
    (last : β → Script γ) :
    (script.bind next).bind last = script.bind (fun value => (next value).bind last) := by
  induction script with
  | pure value => rfl
  | fail failure => rfl
  | get key rest ih => exact congrArg (Script.get key) (funext ih)
  | set key value rest ih => exact congrArg (Script.set key value) ih
  | delete key rest ih => exact congrArg (Script.delete key) ih
  | mergeOp key op rest ih => exact congrArg (Script.mergeOp key op) ih
  | attach ref indexer data rest ih => exact congrArg (Script.attach ref indexer data) ih

theorem run_bind_eq (script : Script α) (next : α → Script β) (task : IndexingTask)
    (ctx : IndexingContext) : (script.bind next).run task ctx =
      (script.run task ctx).bind (fun result => (next result.1).run result.2.1 result.2.2) := by
  induction script generalizing task ctx with
  | pure value => rfl
  | fail failure => rfl
  | get key rest ih =>
      simp only [Script.run, Script.bind]
      cases task.getRaw key.raw with
      | error failure => rfl
      | ok value => exact ih value task ctx
  | set key value rest ih =>
      simp only [Script.run, Script.bind]
      cases task.setRaw key.raw value with
      | error failure => rfl
      | ok after => exact ih after ctx
  | delete key rest ih =>
      simp only [Script.run, Script.bind]
      cases task.deleteRaw key.raw with
      | error failure => rfl
      | ok after => exact ih after ctx
  | mergeOp key op rest ih =>
      simp only [Script.run, Script.bind]
      cases task.mergeOpRaw key.raw op with
      | error failure => rfl
      | ok after => exact ih after ctx
  | attach ref indexer data rest ih => exact ih task (ctx.attachUtxoMetadata ref indexer data)

theorem run_bind {script : Script α} {next : α → Script β}
    {task after : IndexingTask} {ctx ctx' : IndexingContext} {value : α}
    (ran : script.run task ctx = .ok (value, after, ctx')) :
    (script.bind next).run task ctx = (next value).run after ctx' := by
  rw [run_bind_eq, ran]
  rfl

theorem completes_lift {result : Except Error α} {value : α} (success : result = .ok value)
    (holds : post value state) : (lift result).Completes readable post state := by
  rw [success]
  exact holds

end Script

namespace IndexerTable

variable {Key Value : Type} [Encode Key] {kv : IndexerTable Key Value} {key : Key}
variable {readable : RawKey → Prop} {state : TableState}

theorem completes_get [Decode Value] {post : Option Value → TableState → Prop} {value : Option Value}
    (decodes : IndexingTask.decodeCell (state.cells (kv.raw key)) = .ok value)
    (holds : post value state) : (kv.get key).Completes readable post state := by
  cases found : state.cells (kv.raw key) with
  | error failure =>
      rw [found] at decodes
      cases decodes
  | ok stored =>
      rw [found] at decodes
      refine ⟨stored, found, ?_⟩
      cases stored with
      | none =>
          cases decodes
          exact holds
      | some bytes =>
          simp only
          cases decoded : (liftDecoding (decodeAll bytes : Except DecodingError Value)) with
          | error failure =>
              simp only [IndexingTask.decodeCell, decoded, bind, Except.bind] at decodes
              cases decodes
          | ok result =>
              simp only [IndexingTask.decodeCell, decoded, bind, Except.bind, pure, Except.pure,
                Except.ok.injEq] at decodes
              subst decodes
              exact holds

theorem completes_set [Encode Value] {post : Unit → TableState → Prop} {value : Value}
    (inside : readable (kv.raw key)) (short : (kv.raw key).length < 2 ^ 63)
    (bounded : (encode value : List Byte).length < 2 ^ 63)
    (holds : post () (state.write (kv.raw key) (.ok (some (encode value))))) :
    (kv.set key value).Completes readable post state :=
  ⟨inside, short, bounded, holds⟩

theorem completes_delete {post : Unit → TableState → Prop} (inside : readable (kv.raw key))
    (short : (kv.raw key).length < 2 ^ 63)
    (holds : post () (state.write (kv.raw key) (.ok none))) :
    (kv.delete key).Completes readable post state :=
  ⟨inside, short, holds⟩

end IndexerTable

end Symphony
