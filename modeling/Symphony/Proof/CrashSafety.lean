import Symphony.Proof.Isolation
import Symphony.Proof.Restart

/-! Any number of processes on one database.

Commits bypass the write-ahead log, so a process that is killed leaves the first commits of the
log behind, and the next one is built from these. -/

namespace Symphony

open UndoLog (Agree)
open VersionedLog (Increasing)

/-- A running process, the blocks indexed in its database, and the greatest height that database
has stood at. -/
structure Life where
  machine : Machine
  history : History
  peak : Nat

namespace Life

def log (life : Life) : List (VersionedLog.Commit RocksTs WriteOp) := life.machine.stage.db.db.log

def tip (life : Life) : Point := life.machine.stage.lastProcessed

def fresh (config : Config) (indexers : List Indexer) : Life :=
  ⟨Machine.bootstrap indexers (Stage.empty config), ⟨[], []⟩, 0⟩

/-- The life after a call of the worker, whatever the call returns. -/
def called (life : Life) (env : Env) (event : ChainEvent) : Life where
  machine := (life.machine.execute env event).1
  history := life.machine.uncached.record life.history env event
  peak := max life.peak (life.machine.execute env event).1.stage.lastProcessed.height.toNat

def booted (life : Life) (indexers : List Indexer) (stage : Stage) : Life :=
  { life with machine := Machine.bootstrap indexers stage }

/-- What may happen to a process: a call, a new worker on the same stage after an error, and a new
process on the database, whose lower bound of the history may have moved on. -/
inductive Step (names : Header → Point → Prop) (config : Config) (indexers : List Indexer) :
    Life → Life → Prop where
  | call (life : Life) (env : Env) (event : ChainEvent) (valid : event.Valid names)
      (sound : config.utxoCache = true → event.ValidOn life.tip life.history) :
      Step names config indexers life (life.called env event)
  | reboot (life : Life) : Step names config indexers life (life.booted indexers life.machine.stage)
  | restart (life : Life) (low : RocksTs) (stage : Stage)
      (rebuilt : Stage.new config (StorageHandler.openDb ⟨life.log, low⟩) = .ok stage) :
      Step names config indexers life (life.booted indexers stage)

def Lived (names : Header → Point → Prop) (config : Config) (indexers : List Indexer) : Life → Prop :=
  Relation.ReflTransGen (Step names config indexers) (fresh config indexers)

end Life

theorem Stage.new_network {config : Config} {handler : StorageHandler} {stage : Stage}
    (rebuilt : Stage.new config handler = .ok stage) :
    stage.network = config.network ∧ stage.utxoCache = if config.utxoCache then some ∅ else none := by
  simp only [Stage.new, bind, Except.bind] at rebuilt
  split at rebuilt
  · cases rebuilt
  · split at rebuilt
    · split at rebuilt
      · cases rebuilt
      · split at rebuilt
        · cases rebuilt
        · split at rebuilt
          · cases rebuilt
            exact ⟨rfl, rfl⟩
          · cases rebuilt
    · split at rebuilt
      · cases rebuilt
      · split at rebuilt
        · cases rebuilt
          exact ⟨rfl, rfl⟩
        · cases rebuilt

section Commits

theorem prefix_between {Op : Type} {log kept : List Op} {commit : Op} (above : log <+: kept)
    (below : kept <+: log ++ [commit]) : kept = log ∨ kept = log ++ [commit] := by
  rcases List.prefix_concat_iff.mp below with whole | shorter
  · exact Or.inr whole
  · exact Or.inl (shorter.eq_of_length_le above.length_le)

theorem Machine.rollBack_tip {machine : Machine} {env : Env} {stage : Stage}
    (undone : machine.stage.rollbackToPoint env.undoNow env.undoAccepted machine.stage.lastProcessed =
      .ok stage) :
    (machine.execute env (.rollBack machine.stage.lastProcessed)).1 = { machine with stage } := by
  simp only [execute, rollBack, undone]

/-- A call makes at most two commits, and the first of two is that of a rollback to the tip. -/
theorem Machine.execute_commits {machine : Machine} {env : Env} {event : ChainEvent}
    {kept : List (VersionedLog.Commit RocksTs WriteOp)} (above : machine.stage.db.db.log <+: kept)
    (below : kept <+: (machine.execute env event).1.stage.db.db.log) :
    kept = machine.stage.db.db.log ∨ kept = (machine.execute env event).1.stage.db.db.log ∨
      ∃ stage, machine.stage.rollbackToPoint env.undoNow env.undoAccepted
        machine.stage.lastProcessed = .ok stage ∧ kept = stage.db.db.log := by
  -- the second commit comes after `stage`, which has either no commit more or the undo
  have middle {stage after : Stage} (undone : Undone machine.stage env stage)
      (grown : stage.db.db.log <+: after.db.db.log) (below : kept <+: after.db.db.log)
      (second : stage.db.db.log <+: kept → kept = stage.db.db.log ∨ kept = after.db.db.log) :
      kept = machine.stage.db.db.log ∨ kept = after.db.db.log ∨
        ∃ stage, machine.stage.rollbackToPoint env.undoNow env.undoAccepted
          machine.stage.lastProcessed = .ok stage ∧ kept = stage.db.db.log := by
    rcases undone with rfl | undone
    · rcases second above with same | whole
      · exact Or.inl same
      · exact Or.inr (Or.inl whole)
    · rcases Stage.rollbackToPoint_log undone with ⟨commit, log⟩
      rcases List.prefix_or_prefix_of_prefix below grown with inside | beyond
      · rw [log] at inside
        rcases prefix_between above inside with same | first
        · exact Or.inl same
        · exact Or.inr (Or.inr ⟨stage, undone, first.trans log.symm⟩)
      · rcases second beyond with first | whole
        · exact Or.inr (Or.inr ⟨stage, undone, first⟩)
        · exact Or.inr (Or.inl whole)
  have uncommitted {stage after : Stage} (undone : Undone machine.stage env stage)
      (same : after.db.db.log = stage.db.db.log) (below : kept <+: after.db.db.log) :
      kept = machine.stage.db.db.log ∨ kept = after.db.db.log ∨
        ∃ stage, machine.stage.rollbackToPoint env.undoNow env.undoAccepted
          machine.stage.lastProcessed = .ok stage ∧ kept = stage.db.db.log := by
    apply middle undone (by rw [same]) below
    intro beyond
    rw [same] at below
    exact Or.inl (below.eq_of_length_le beyond.length_le)
  have committed {stage after : Stage} {ts : Timestamp} {batch : List WriteOp}
      (undone : Undone machine.stage env stage)
      (commit : StorageHandler.Committed stage.db after.db ts batch)
      (below : kept <+: after.db.db.log) :
      kept = machine.stage.db.db.log ∨ kept = after.db.db.log ∨
        ∃ stage, machine.stage.rollbackToPoint env.undoNow env.undoAccepted
          machine.stage.lastProcessed = .ok stage ∧ kept = stage.db.db.log := by
    apply middle undone ⟨_, commit.log.symm⟩ below
    intro beyond
    rw [commit.log] at below ⊢
    exact prefix_between beyond below
  have call := machine.execute_call env event
  generalize machine.execute env event = outcome at call below ⊢
  cases call with
  | refused => exact Or.inl (below.eq_of_length_le above.length_le)
  | stopped undone _ => exact uncommitted (undoMempool_undone undone) rfl below
  | unindexed undone => exact uncommitted (undoMempool_undone undone) rfl below
  | indexed undone _ _ _ applied =>
      have commit := StorageHandler.applyIndexingTask_committed applied
      exact committed (undoMempool_undone undone) commit below
  | rolledBack undone =>
      rcases Stage.rollbackToPoint_log undone with ⟨commit, log⟩
      simp only [log] at below ⊢
      rcases prefix_between above below with same | whole
      · exact Or.inl same
      · exact Or.inr (Or.inl whole)
  | skipped undone _ => exact uncommitted (undoSnapshot_undone undone) rfl below
  | unsnapshotted undone => exact uncommitted (undoSnapshot_undone undone) rfl below
  | snapshotted undone _ _ applied =>
      have commit := StorageHandler.applyIndexingTask_committed applied
      exact committed (undoSnapshot_undone undone) commit below

end Commits

/-- What holds of every life: the table can be reloaded, the history accounts for the data and for
every view the buffer leads back to, and the cache is right. -/
structure Life.Sound (names : Header → Point → Prop) (config : Config) (indexers : List Indexer)
    (life : Life) : Prop where
  restartable : ∃ chain ledger, Restartable names config.genesisHash config.maxRollbacks life.peak
    life.machine chain ledger
  chronicle : ∀ Good, HistoryInvariant indexers config.network Good → ∃ ledger,
    Chronicle indexers config.network Good names config.genesisHash life.machine.uncached
      life.history ledger
  cached : SoundlyCached life.history.confirmed life.machine.stage.utxoCache
  plain : config.utxoCache = false → life.machine.stage.utxoCache = none

section Sound

variable {names : Header → Point → Prop} {config : Config} {indexers : List Indexer} {life : Life}

theorem SoundlyCached.none (confirmed : List IndexedBlock) : SoundlyCached confirmed none := by
  intro _ _ impossible
  cases impossible

theorem SoundlyCached.empty (confirmed : List IndexedBlock) : SoundlyCached confirmed (some ∅) := by
  intro _ held same ref utxo stored found
  rw [← Option.some.inj same] at found
  cases found

theorem Life.Sound.fresh (small : config.maxRollbacks < 2 ^ 64) :
    (Life.fresh config indexers).Sound names config indexers where
  restartable :=
    restartable_bootstrap names config indexers _ small (Stage.new_empty config)
  chronicle := by
    intro Good invariant
    exact invariant.run names { config with utxoCache := false } _ [] (Stage.new_empty _) rfl
      (by intro _ impossible; cases impossible) List.Pairwise.nil
  cached := by
    rw [show (Life.fresh config indexers).machine.stage.utxoCache =
      if config.utxoCache then some ∅ else none from rfl]
    split
    · exact SoundlyCached.empty _
    · exact SoundlyCached.none _
  plain := by
    intro off
    rw [show (Life.fresh config indexers).machine.stage.utxoCache =
      if config.utxoCache then some ∅ else none from rfl, off]
    rfl

theorem Life.Sound.transparent (sound : life.Sound names config indexers) {env : Env}
    {event : ChainEvent} (valid : event.Valid names)
    (on : config.utxoCache = true → event.ValidOn life.tip life.history)
    (increasing : Increasing (life.called env event).log) :
    Transparent life.machine life.history env event := by
  rcases sound.chronicle UtxosIndexed (utxosIndexed_invariant indexers config.network) with
    ⟨_, chronicle⟩
  cases cached : config.utxoCache with
  | true => exact chronicle.transparent sound.cached valid (on cached) increasing
  | false =>
      have plain (machine : Machine) (none : machine.stage.utxoCache = none) :
          machine.uncached = machine := by
        simp only [Machine.uncached, Stage.uncached, ← none]
      have same := plain life.machine (sound.plain cached)
      rw [same] at chronicle
      rcases chronicle.execute (utxosIndexed_invariant indexers config.network) valid increasing with
        ⟨_, after⟩
      refine ⟨?_, ?_⟩
      · rw [same]
        refine Prod.ext ?_ rfl
        exact (plain _ after.uncached).symm
      · rw [after.uncached]
        exact SoundlyCached.none _

theorem Life.Sound.called (sound : life.Sound names config indexers) {env : Env}
    {event : ChainEvent} (valid : event.Valid names)
    (on : config.utxoCache = true → event.ValidOn life.tip life.history)
    (increasing : Increasing (life.called env event).log) :
    (life.called env event).Sound names config indexers := by
  have step := sound.transparent valid on increasing
  have goes : (life.machine.uncached.execute env event).1 =
      (life.called env event).machine.uncached := by
    rw [step.1]
    rfl
  have chronicle (Good : History → (RawKey → Cell) → Prop)
      (invariant : HistoryInvariant indexers config.network Good) :
      ∃ ledger, Chronicle indexers config.network Good names config.genesisHash
        (life.called env event).machine.uncached (life.called env event).history ledger := by
    rcases sound.chronicle Good invariant with ⟨_, before⟩
    rw [← goes]
    apply before.execute invariant valid
    rw [goes]
    exact increasing
  refine ⟨?_, chronicle, step.2, ?_⟩
  · exact (kept_restartable names config.genesisHash config.maxRollbacks life.peak).execute
      sound.restartable valid increasing
  · intro off
    rcases sound.chronicle UtxosIndexed (utxosIndexed_invariant indexers config.network) with
      ⟨_, before⟩
    have same : life.machine.uncached = life.machine := by
      simp only [Machine.uncached, Stage.uncached, ← sound.plain off]
    rw [same] at before
    rcases before.execute (utxosIndexed_invariant indexers config.network) valid increasing with
      ⟨_, after⟩
    exact after.uncached

theorem Life.Sound.rebooted (sound : life.Sound names config indexers) :
    (life.booted indexers life.machine.stage).Sound names config indexers := by
  have mutable : life.machine.stage.rollbackBuffer.points ≠ [] →
      (Machine.bootstrap indexers life.machine.stage).worker.mutable = true := by
    intro some
    simp [Machine.bootstrap, RollbackBuffer.isEmpty, some]
  refine ⟨?_, ?_, sound.cached, sound.plain⟩
  · rcases sound.restartable with ⟨chain, ledger, state⟩
    exact ⟨chain, ledger, { state with inv := { state.inv with mutable } }⟩
  · intro Good invariant
    rcases sound.chronicle Good invariant with ⟨ledger, chronicle⟩
    exact ⟨ledger, { chronicle with
      indexers := rfl
      chain := { chronicle.chain with mutable } }⟩

def Machine.reopened (machine : Machine) (low : RocksTs) : Machine :=
  { machine with stage := { machine.stage with
    db := { machine.stage.db with db := ⟨machine.stage.db.db.log, low⟩ } } }

theorem ChainInv.reopened {machine : Machine} {chain : List Point} {ledger : List LedgerEntry}
    {genesis : BlockHash} (inv : ChainInv names genesis machine chain ledger) (low : RocksTs) :
    ChainInv names genesis (machine.reopened low) chain ledger where
  linked := inv.linked
  low := inv.low
  tables := inv.tables
  tip := inv.tip
  journal := ⟨inv.journal.held, inv.journal.consistent, inv.journal.top, inv.journal.current⟩
  held := inv.held
  layers := inv.layers
  mutable := inv.mutable
  size := inv.size

theorem Restartable.reopened {machine : Machine} {chain : List Point} {ledger : List LedgerEntry}
    {peak : Nat} (state : Restartable names config.genesisHash config.maxRollbacks peak machine chain
      ledger) (low : RocksTs) :
    Restartable names config.genesisHash config.maxRollbacks peak (machine.reopened low) chain
      ledger where
  inv := state.inv.reopened low
  size := state.size
  limit := state.limit
  room := state.room
  bounded := state.bounded
  reached := state.reached
  near := state.near
  floor := state.floor
  fileable := state.fileable
  values := state.values
  persisted := state.persisted

theorem confirmedEntries_take {ledger ledger' : List LedgerEntry} {count : Nat} (mempool : Bool)
    (views : ledger'.map LedgerEntry.view = (ledger.take count).map LedgerEntry.view) {index : Nat}
    {entry : LedgerEntry} (found : (confirmedEntries mempool ledger')[index]? = some entry) :
    ∃ other, (confirmedEntries mempool ledger)[index]? = some other ∧ other.view = entry.view := by
  have longer (place : Nat) {entry : LedgerEntry} (listed : ledger'[place]? = some entry) :
      ∃ other, ledger[place]? = some other ∧ other.view = entry.view := by
    have mapped := congrArg (fun views => views[place]?) views
    simp only [List.getElem?_map, listed, Option.map_some] at mapped
    rcases Option.map_eq_some_iff.mp mapped.symm with ⟨other, there, same⟩
    rw [List.getElem?_take] at there
    split at there
    · exact ⟨other, there, same⟩
    · cases there
  cases mempool with
  | false => exact longer index found
  | true =>
      simp only [confirmedEntries, if_true, List.getElem?_drop] at found ⊢
      exact longer (1 + index) found

/-- A process that is built from what the database holds goes on as the one before it. -/
theorem Life.Sound.restarted (sound : life.Sound names config indexers) {low : RocksTs} {stage : Stage}
    (rebuilt : Stage.new config (StorageHandler.openDb ⟨life.log, low⟩) = .ok stage) :
    (life.booted indexers stage).Sound names config indexers := by
  rcases sound.restartable with ⟨chain, ledger, before⟩
  have state := before.reopened low
  rcases state.new with ⟨stage', rebuilt', same, db, size, _, tip, mempool⟩
  obtain rfl : stage = stage' := Except.ok.inj (rebuilt.symm.trans rebuilt')
  rcases state.newest with ⟨count, newest⟩
  rcases Stage.new_network rebuilt with ⟨network, cache⟩
  have paired := same
  rw [newest] at paired
  have mutable : stage.rollbackBuffer.points ≠ [] →
      (Machine.bootstrap indexers stage).worker.mutable = true := by
    intro some
    simp [Machine.bootstrap, RollbackBuffer.isEmpty, some]
  refine ⟨?_, ?_, ?_, ?_⟩
  · rcases state.restart indexers rebuilt with ⟨ledger', state'⟩
    exact ⟨chain, ledger', state'⟩
  · intro Good invariant
    rcases sound.chronicle Good invariant with ⟨ledger, chronicle⟩
    have inv := chronicle.chain.reopened low
    have room : 2 ≤ stage.rollbackBuffer.size := by
      rw [size]
      exact Nat.le_add_left 2 _
    have rebuilding := @ChainInv.rebuilt names config.genesisHash (life.machine.uncached.reopened low)
      _ ledger (Machine.bootstrap indexers stage).uncached count inv paired
      (state.pseudo_kept newest) db tip mempool mutable room
    rcases rebuilding with ⟨ledger', inv', views⟩
    refine ⟨ledger', rfl, network, rfl, inv', ?_, ?_, ?_⟩
    · intro index entry found
      have flag : (life.booted indexers stage).machine.uncached.stage.processedMempool =
          life.machine.uncached.stage.processedMempool := mempool
      rw [flag] at found
      rcases confirmedEntries_take _ views found with ⟨other, listed, view⟩
      rw [← view]
      exact chronicle.past index other listed
    · have view : (life.booted indexers stage).machine.uncached.stage.db.db.view =
          life.machine.uncached.stage.db.db.view := by
        rw [show (life.booted indexers stage).machine.uncached.stage.db = stage.db from rfl, db]
        rfl
      rw [view]
      exact chronicle.now
    · intro idle
      exact chronicle.idle (mempool.symm.trans idle)
  · rw [show (life.booted indexers stage).machine.stage.utxoCache = stage.utxoCache from rfl, cache]
    split
    · exact SoundlyCached.empty _
    · exact SoundlyCached.none _
  · intro off
    rw [show (life.booted indexers stage).machine.stage.utxoCache = stage.utxoCache from rfl, cache,
      off]
    rfl

theorem Life.booted_log {low : RocksTs} {stage : Stage}
    (rebuilt : Stage.new config (StorageHandler.openDb ⟨life.log, low⟩) = .ok stage) :
    (life.booted indexers stage).log = life.log := by
  rw [Life.log, show (life.booted indexers stage).machine.stage.db = stage.db from rfl,
    Stage.new_db rebuilt]
  rfl

theorem Life.Step.log_prefix {after : Life} (step : Life.Step names config indexers life after) :
    life.log <+: after.log := by
  cases step with
  | call env event => exact life.machine.execute_log env event
  | reboot => exact List.prefix_rfl
  | restart low stage rebuilt => rw [Life.booted_log rebuilt]

theorem Life.Sound.step {after : Life} (sound : life.Sound names config indexers)
    (step : Life.Step names config indexers life after) (increasing : Increasing after.log) :
    after.Sound names config indexers := by
  cases step with
  | call env event valid on => exact sound.called valid on increasing
  | reboot => exact sound.rebooted
  | restart low stage rebuilt => exact sound.restarted rebuilt

theorem Life.Lived.sound (lived : Life.Lived names config indexers life)
    (small : config.maxRollbacks < 2 ^ 64) (increasing : Increasing life.log) :
    life.Sound names config indexers := by
  induction lived with
  | refl => exact Life.Sound.fresh small
  | tail _ step ih =>
      exact (ih (VersionedLog.increasing_prefix step.log_prefix increasing)).step step increasing

theorem Life.Lived.undone (lived : Life.Lived names config indexers life)
    (sound : life.Sound names config indexers) {env : Env} {stage : Stage}
    (undone : life.machine.stage.rollbackToPoint env.undoNow env.undoAccepted life.tip = .ok stage) :
    Life.Lived names config indexers (life.called env (.rollBack life.tip)) ∧
      (life.called env (.rollBack life.tip)).log = stage.db.db.log ∧
      (life.called env (.rollBack life.tip)).tip = life.tip ∧
      (life.called env (.rollBack life.tip)).history = ⟨life.history.confirmed, []⟩ := by
  rcases sound.chronicle UtxosIndexed (utxosIndexed_invariant indexers config.network) with
    ⟨_, chronicle⟩
  have machine : (life.called env (.rollBack life.tip)).machine = { life.machine with stage } :=
    Machine.rollBack_tip undone
  refine ⟨?_, ?_, ?_, ?_⟩
  · exact lived.tail (Life.Step.call life env _ chronicle.chain.tip_low (by intro _; trivial))
  · rw [Life.log, machine]
  · rw [Life.tip, machine]
    exact Stage.rollbackToPoint_lastProcessed undone
  · have plain : life.machine.uncached.stage.rollbackToPoint env.undoNow env.undoAccepted life.tip =
        .ok stage.uncached := by
      rw [Machine.uncached, Stage.rollbackToPoint_uncached, undone]
      rfl
    simp only [Life.called, Machine.record, plain]
    rw [show life.tip = life.machine.uncached.stage.lastProcessed from rfl, chronicle.dropWhile_tip]

/-- The first commits of a life are those of an earlier moment of it, or of such a moment with its
snapshot undone. -/
theorem Life.Lived.truncated (lived : Life.Lived names config indexers life)
    (small : config.maxRollbacks < 2 ^ 64) (increasing : Increasing life.log)
    {kept : List (VersionedLog.Commit RocksTs WriteOp)} (first : kept <+: life.log) :
    ∃ past earlier, Life.Lived names config indexers past ∧
      Relation.ReflTransGen (Life.Step names config indexers) past life ∧
      Life.Lived names config indexers earlier ∧ earlier.log = kept ∧ earlier.tip = past.tip ∧
      (earlier.history = past.history ∨ earlier.history = ⟨past.history.confirmed, []⟩) := by
  induction lived with
  | refl =>
      have nothing : kept = [] := List.prefix_nil.mp first
      exact ⟨_, _, .refl, .refl, .refl, nothing.symm, rfl, Or.inl rfl⟩
  | @tail before after lived step ih =>
      have earlier := VersionedLog.increasing_prefix step.log_prefix increasing
      rcases List.prefix_or_prefix_of_prefix first step.log_prefix with inside | beyond
      · rcases ih earlier inside with ⟨past, moment, known, leads, rest⟩
        exact ⟨past, moment, known, leads.tail step, rest⟩
      · have whole (same : kept = after.log) : ∃ past earlier, Life.Lived names config indexers past ∧
            Relation.ReflTransGen (Life.Step names config indexers) past after ∧
            Life.Lived names config indexers earlier ∧ earlier.log = kept ∧ earlier.tip = past.tip ∧
            (earlier.history = past.history ∨ earlier.history = ⟨past.history.confirmed, []⟩) :=
          ⟨after, after, lived.tail step, .refl, lived.tail step, same.symm, rfl, Or.inl rfl⟩
        cases step with
        | call env event valid on =>
            rcases Machine.execute_commits beyond first with same | all | ⟨stage, undone, same⟩
            · exact ⟨before, before, lived, .single (.call before env event valid on), lived,
                same.symm, rfl, Or.inl rfl⟩
            · exact whole all
            · have lived' : Life.Lived names config indexers before := lived
              rcases lived'.undone (lived'.sound small earlier) undone with ⟨known, log, tip, history⟩
              exact ⟨before, _, lived, .single (.call before env event valid on), known,
                log.trans same.symm, tip, Or.inr history⟩
        | reboot => exact whole (first.eq_of_length_le beyond.length_le)
        | restart low stage rebuilt =>
            apply whole
            rw [Life.booted_log rebuilt] at first ⊢
            exact first.eq_of_length_le beyond.length_le

/-- The database of a life can always be opened again. -/
theorem Life.Sound.reopens (sound : life.Sound names config indexers) (low : RocksTs) :
    ∃ stage, Stage.new config (StorageHandler.openDb ⟨life.log, low⟩) = .ok stage ∧
      stage.lastProcessed = life.tip ∧ stage.db.db.view = life.machine.stage.db.db.view := by
  rcases sound.restartable with ⟨chain, ledger, before⟩
  rcases (before.reopened low).new with ⟨stage, rebuilt, _, db, _, _, tip, _⟩
  refine ⟨stage, rebuilt, tip, ?_⟩
  rw [db]
  rfl

end Sound

def Life.after (config : Config) (indexers : List Indexer) (events : List (Env × ChainEvent)) : Life :=
  events.foldl (fun life event => life.called event.1 event.2) (Life.fresh config indexers)

theorem Life.after_lived {names : Header → Point → Prop} {config : Config} {indexers : List Indexer}
    {events : List (Env × ChainEvent)} (uncached : config.utxoCache = false)
    (valid : ∀ event ∈ events, event.2.Valid names) :
    Life.Lived names config indexers (Life.after config indexers events) ∧
      (Life.after config indexers events).machine =
        (Machine.bootstrap indexers (Stage.empty config)).run events := by
  induction events using List.reverseRecOn with
  | nil => exact ⟨.refl, rfl⟩
  | append_singleton events event ih =>
      rcases ih (by
        intro other member
        exact valid other (List.mem_append_left _ member)) with ⟨lived, machine⟩
      rw [Life.after, List.foldl_append, Machine.run_append, ← machine]
      refine ⟨lived.tail (.call _ event.1 event.2 (valid event (by simp)) ?_), rfl⟩
      intro cached
      rw [uncached] at cached
      cases cached

/-- Kill a process after any of its commits. The database left behind opens, whatever has become of
the lower bound of the history, and shows exactly the blocks of an earlier moment of the life, with
or without the snapshot of that moment. The new process stands on the newest of these blocks, and
what it does from there on is a life. -/
theorem crash_consistent (blockHash : Header → BlockHash) (config : Config) (indexers : List Indexer)
    (life : Life) (kept : List (VersionedLog.Commit RocksTs WriteOp)) (low : RocksTs)
    (small : config.maxRollbacks < 2 ^ 64)
    (lived : Life.Lived (HashedBy blockHash) config indexers life)
    (increasing : Increasing life.log) (first : kept <+: life.log) :
    ∃ (past earlier : Life) (stage : Stage), Life.Lived (HashedBy blockHash) config indexers past ∧
      Relation.ReflTransGen (Life.Step (HashedBy blockHash) config indexers) past life ∧
      (earlier.history = past.history ∨ earlier.history = ⟨past.history.confirmed, []⟩) ∧
      earlier.log = kept ∧ Stage.new config (StorageHandler.openDb ⟨kept, low⟩) = .ok stage ∧
      Reflects indexers config.network earlier.history stage.db.db.view ∧
      stage.lastProcessed =
        chainTop config.genesisHash (earlier.history.confirmed.map IndexedBlock.point) ∧
      Life.Lived (HashedBy blockHash) config indexers (earlier.booted indexers stage) := by
  rcases lived.truncated small increasing first with
    ⟨past, earlier, known, leads, moment, rfl, _, history⟩
  have sound := moment.sound small (VersionedLog.increasing_prefix first increasing)
  rcases sound.reopens low with ⟨stage, rebuilt, tip, view⟩
  rcases sound.chronicle _ (reflects_invariant indexers config.network) with ⟨_, chronicle⟩
  refine ⟨past, earlier, stage, known, leads, history, rfl, rebuilt, ?_, ?_, ?_⟩
  · rw [view]
    exact chronicle.now
  · rw [tip]
    exact chronicle.chain.tip
  · exact moment.tail (.restart earlier low stage rebuilt)

/-- Killed after the second of its four commits, the process comes back with two blocks. -/
theorem crash_consistent_lowered :
    ∃ (past earlier : Life) (stage : Stage), Life.Lived (HashedBy byteHash) loweredConfig [] past ∧
      Relation.ReflTransGen (Life.Step (HashedBy byteHash) loweredConfig []) past
        (Life.after loweredConfig [] loweredEvents) ∧
      (earlier.history = past.history ∨ earlier.history = ⟨past.history.confirmed, []⟩) ∧
      earlier.log = (lowered 2).stage.db.db.log ∧
      Stage.new loweredConfig (StorageHandler.openDb ⟨(lowered 2).stage.db.db.log, 0⟩) = .ok stage ∧
      Reflects [] loweredConfig.network earlier.history stage.db.db.view ∧
      stage.lastProcessed =
        chainTop loweredConfig.genesisHash (earlier.history.confirmed.map IndexedBlock.point) ∧
      Life.Lived (HashedBy byteHash) loweredConfig [] (earlier.booted [] stage) := by
  have lives : Life.Lived (HashedBy byteHash) loweredConfig [] (Life.after loweredConfig [] loweredEvents) ∧
      (Life.after loweredConfig [] loweredEvents).machine = lowered 4 :=
    Life.after_lived rfl (by decide)
  have log : (Life.after loweredConfig [] loweredEvents).log = (lowered 4).stage.db.db.log := by
    rw [Life.log, lives.2]
  apply crash_consistent byteHash loweredConfig [] _ _ 0 (by decide) lives.1
  · rw [log]
    decide +kernel
  · rw [log]
    decide +kernel

/-- What the database shows depends only on the blocks it stands on: lives of any length, with any
reorganisations, restarts and crashes on the way, with or without a cache, for any depth of the
buffer, show the same once they have come to the same blocks and the same snapshot. The indexers are
functions, so both lives iterate a hash map in one order. -/
theorem lives_agree (blockHash : Header → BlockHash) (config config' : Config)
    (indexers : List Indexer) (life life' : Life) (small : config.maxRollbacks < 2 ^ 64)
    (small' : config'.maxRollbacks < 2 ^ 64) (network : config'.network = config.network)
    (lived : Life.Lived (HashedBy blockHash) config indexers life)
    (lived' : Life.Lived (HashedBy blockHash) config' indexers life')
    (increasing : Increasing life.log) (increasing' : Increasing life'.log)
    (chain : life'.history.chain = life.history.chain)
    (snapshot : life'.history.snapshot.map IndexedBlock.content =
      life.history.snapshot.map IndexedBlock.content) :
    Agree IsData life'.machine.stage.db.db.view life.machine.stage.db.db.view := by
  rcases (lived.sound small increasing).chronicle _ (reflects_invariant indexers config.network) with
    ⟨_, chronicle⟩
  rcases (lived'.sound small' increasing').chronicle _
    (reflects_invariant indexers config'.network) with ⟨_, chronicle'⟩
  have now' := chronicle'.now
  rw [network] at now'
  exact Reflects.agree chronicle.now now' chain snapshot

/-- A third block and its rollback leave no trace behind. -/
theorem lives_agree_lowered :
    Agree IsData (lowered 4).stage.db.db.view (lowered 2).stage.db.db.view := by
  have whole : Life.Lived (HashedBy byteHash) loweredConfig [] (Life.after loweredConfig [] loweredEvents) ∧
      (Life.after loweredConfig [] loweredEvents).machine = lowered 4 :=
    Life.after_lived rfl (by decide)
  have short : Life.Lived (HashedBy byteHash) loweredConfig []
        (Life.after loweredConfig [] (loweredEvents.take 2)) ∧
      (Life.after loweredConfig [] (loweredEvents.take 2)).machine = lowered 2 :=
    Life.after_lived rfl (by decide)
  rw [← whole.2, ← short.2]
  apply lives_agree byteHash loweredConfig loweredConfig [] _ _ (by decide) (by decide) rfl short.1
    whole.1
  · rw [Life.log, short.2]
    decide +kernel
  · rw [Life.log, whole.2]
    decide +kernel
  · decide +kernel
  · decide +kernel

end Symphony
