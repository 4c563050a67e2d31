import Symphony.Proof.AddressIndex
import Symphony.Proof.CharmsIndex
import Symphony.Proof.RuneRun
import Symphony.Proof.ServedMoments
import Symphony.Sync.EnabledIndexers

/-! The indexers that a configuration enables keep apart.

So the tables of each are those of its own rule, whichever others work beside it. -/

namespace Symphony

open Encdec
open VersionedLog (Increasing)

theorem TxCountByAddressIndexer.countScripts_within {refs : TxoRef → Prop}
    (scripts : List ScriptPubKey) :
    (countScripts scripts).Within (.own .txCountByAddress (fun _ => True) refs) := by
  induction scripts with
  | nil => trivial
  | cons script scripts ih => exact ⟨⟨table.owns_raw script, trivial⟩, ih⟩

theorem TxCountByAddressIndexer.processTx_within {refs : TxoRef → Prop} (order : SetOrder)
    (tx : TransactionWithId) (blockIndex : Nat) (ctx : TxContext) :
    (processTx order tx blockIndex ctx).Within (.own .txCountByAddress (fun _ => True) refs) :=
  (Script.within_lift _ _).bind (fun _ => countScripts_within _)

namespace Footprint

variable {who other : TransactionIndexer} {keys more : RawKey → Prop} {refs others : TxoRef → Prop}

theorem own_below_own (wider : ∀ key, keys key → more key) (further : ∀ ref, refs ref → others ref) :
    (own who keys refs).Below (own who more others) where
  set key own := ⟨own.1, fun short => wider key (own.2 short)⟩
  delete _ owns := owns
  merge key own := ⟨own.1, wider key own.2⟩
  attach ref _ own := ⟨own.1, further ref own.2⟩

theorem own_below_besides (different : other ≠ who) : (own other keys refs).Below (besides who) where
  set _ own owns := different (own.1.unique owns)
  delete _ own owns := different (own.unique owns)
  merge _ own owns := different (own.1.unique owns)
  attach _ _ own := own.1 ▸ different

end Footprint

/-- Whatever it is called for, an indexer stays in its own tables and metadata. -/
theorem TransactionIndexerFactory.createIndexer_within (factory : TransactionIndexerFactory)
    (tx : TransactionWithId) (blockIndex : Nat) (ctx : TxContext) :
    (factory.createIndexer tx blockIndex ctx).Within
      (.own factory.kind (fun _ => True) (fun _ => True)) := by
  have wider {keys : RawKey → Prop} {refs : TxoRef → Prop} {who : TransactionIndexer} :
      (Footprint.own who keys refs).Below (.own who (fun _ => True) (fun _ => True)) :=
    Footprint.own_below_own (fun _ _ => trivial) (fun _ _ => trivial)
  cases factory with
  | txCountByAddress order =>
      exact TxCountByAddressIndexer.processTx_within order tx blockIndex ctx
  | runes indexer => exact (RunesIndexer.processTx_within blockIndex ctx).mono wider
  | utxosByAddress =>
      exact (@UtxosByAddressIndexer.processTx_within (fun _ => True) tx blockIndex ctx).mono wider
  | charms indexer => exact (CharmsIndexer.processTx_within blockIndex ctx).mono wider

theorem TransactionIndexerFactory.createIndexer_apart (factory : TransactionIndexerFactory)
    {who : TransactionIndexer} (different : factory.kind ≠ who) : factory.createIndexer.Apart who :=
  fun tx blockIndex ctx => (factory.createIndexer_within tx blockIndex ctx).mono
    (Footprint.own_below_besides different)

section Enabled

open TransactionIndexerFactory

variable {factories : List TransactionIndexerFactory} {factory : TransactionIndexerFactory}

theorem enabled_split (distinct : (factories.map kind).Nodup) (member : factory ∈ factories) :
    ∃ before after, factories = before ++ factory :: after ∧
      ∀ other ∈ before ++ after, other.kind ≠ factory.kind := by
  obtain ⟨before, after, rfl⟩ := List.append_of_mem member
  have apart := List.nodup_middle.mp (by simpa only [List.map_append, List.map_cons] using distinct)
  rw [← List.map_append] at apart
  refine ⟨before, after, rfl, ?_⟩
  intro other listed same
  exact (List.nodup_cons.mp apart).1 (same ▸ List.mem_map_of_mem listed)

section Rules

variable (indexer : CharmsIndexer) (runesIndexer : RunesIndexer)

theorem addresses_rule : TxRule (kind .utxosByAddress) (createIndexer .utxosByAddress)
    AddressesListed := addressesListed_rule

theorem enabledCharms_rule : TxRule (kind (.charms indexer)) (createIndexer (.charms indexer))
    (CharmsGood indexer) := charms_rule indexer

theorem enabledRunes_rule : TxRule (kind (.runes runesIndexer)) (createIndexer (.runes runesIndexer))
    (RunesGood runesIndexer) := runes_rule runesIndexer

end Rules

theorem enabled_others (distinct : (factories.map kind).Nodup) (member : factory ∈ factories) :
    ∃ others : Others factory.kind,
      createIndexers factories = others.with factory.createIndexer := by
  obtain ⟨before, after, rfl, different⟩ := enabled_split distinct member
  have apart : ∀ indexer ∈ createIndexers before ++ createIndexers after,
      indexer.Apart factory.kind := by
    intro indexer listed
    rw [createIndexers, createIndexers, ← List.map_append] at listed
    obtain ⟨other, inside, rfl⟩ := List.mem_map.mp listed
    exact other.createIndexer_apart (different other inside)
  refine ⟨⟨createIndexers before, createIndexers after, apart⟩, ?_⟩
  rw [createIndexers, List.map_append, List.map_cons]
  rfl

theorem enabled_counting {order : SetOrder} (distinct : (factories.map kind).Nodup)
    (member : .txCountByAddress order ∈ factories) :
    ∃ counting : CountingIndexers, createIndexers factories = counting.list := by
  obtain ⟨before, after, rfl, different⟩ := enabled_split distinct member
  have apart : ∀ indexer ∈ createIndexers before ++ createIndexers after,
      indexer.Within (fun key => ¬ TxCountByAddressKV.Holds key) := by
    intro indexer listed tx blockIndex ctx
    rw [createIndexers, createIndexers, ← List.map_append] at listed
    obtain ⟨other, inside, rfl⟩ := List.mem_map.mp listed
    apply (other.createIndexer_within tx blockIndex ctx).mono
    apply Footprint.own_below_onKeys
    intro key owns held
    exact different other inside (owns.unique (TransactionIndexer.owns_table held))
  refine ⟨⟨createIndexers before, order, createIndexers after, apart⟩, ?_⟩
  rw [createIndexers, List.map_append, List.map_cons]
  rfl

variable {names : Header → Point → Prop} {config : Config} {life : Life}
variable {Good : List IndexedTx → (RawKey → Cell) → Prop}

/-- What the calls of an enabled indexer keep holds of every life on valid blocks. -/
theorem TxRule.lived (rule : TxRule factory.kind factory.createIndexer Good)
    (distinct : (factories.map kind).Nodup) (member : factory ∈ factories)
    (sound : life.Sound names config (createIndexers factories)) (valid : life.history.Valid) :
    Records Good life.history life.machine := by
  obtain ⟨others, listed⟩ := enabled_others distinct member
  rw [listed] at sound
  have invariant : HistoryInvariant (others.with factory.createIndexer) config.network
      (RecordedTxs Good) := rule.invariant
  obtain ⟨_, chronicle⟩ := sound.chronicle _ invariant
  have now : RecordedTxs Good life.history life.machine.stage.db.db.view := chronicle.now
  exact ⟨valid, now.1, (now.2 valid).1, (now.2 valid).2⟩

theorem Life.Sound.tallies {order : SetOrder} (distinct : (factories.map kind).Nodup)
    (member : .txCountByAddress order ∈ factories)
    (sound : life.Sound names config (createIndexers factories)) (valid : life.history.Valid)
    {script : ScriptPubKey} (short : script.length < 2 ^ 64) :
    Tallies (life.machine.stage.db.db.view (txCountKey script))
      (txCount script life.history.blocks) := by
  obtain ⟨counting, listed⟩ := enabled_counting distinct member
  rw [listed] at sound
  obtain ⟨_, chronicle⟩ := sound.chronicle _ (txsCounted_invariant counting config.network)
  have now : TxsCounted life.history life.machine.stage.db.db.view := chronicle.now
  exact (now valid).2 script short

end Enabled

theorem Life.after_valid {names : Header → Point → Prop} {config : Config} {indexers : List Indexer}
    {events : List (Env × ChainEvent)} (fed : ∀ event ∈ events, event.2.Valid names)
    (valid : (Machine.bootstrap indexers (Stage.empty config)).uncached.ValidFrom ⟨[], []⟩ events)
    (increasing : Increasing
      ((Machine.bootstrap indexers (Stage.empty config)).run events).stage.db.db.log) :
    let life := Life.after config indexers events
    let machine := Machine.bootstrap indexers (Stage.empty config)
    Life.Lived names config indexers life ∧ life.machine = machine.run events ∧
      life.history = machine.uncached.history events ∧ life.history.Valid := by
  intro life machine
  have run := HistoryInvariant.run_valid (utxosIndexed_invariant indexers config.network) names
    events fed valid increasing
  suffices leads : Life.Lived names config indexers life ∧ life.machine = machine.run events ∧
      life.history = machine.uncached.history events from
    ⟨leads.1, leads.2.1, leads.2.2, leads.2.2 ▸ run.2.1⟩
  clear run
  induction events using List.reverseRecOn with
  | nil => exact ⟨.refl, rfl, rfl⟩
  | append_singleton events event ih =>
      rw [Machine.run_snoc] at increasing
      have earlier : Increasing (machine.run events).stage.db.db.log :=
        VersionedLog.increasing_prefix ((machine.run events).execute_log _ _) increasing
      have known : ∀ event ∈ events, event.2.Valid names := by
        intro other member
        exact fed other (List.mem_append_left _ member)
      have step := (Machine.validFrom_snoc _ events event.1 event.2).mp valid
      have before := ih known step.1 earlier
      have same := (HistoryInvariant.run_valid (utxosIndexed_invariant indexers config.network) names
        events known step.1 earlier).1
      have after : life = (Life.after config indexers events).called event.1 event.2 := by
        simp only [life, Life.after, List.foldl_append, List.foldl_cons, List.foldl_nil]
      have tip : (Life.after config indexers events).tip =
          (machine.uncached.run events).stage.lastProcessed := by
        rw [Life.tip, before.2.1, ← same]
        rfl
      rw [after]
      refine ⟨before.1.tail (.call _ _ _ (fed event (by simp)) ?_), ?_, ?_⟩
      · intro _
        rw [tip, before.2.2]
        exact step.2
      · rw [Machine.run_snoc, Life.called, before.2.1]
      · rw [Machine.history_snoc, Life.called, before.2.1, before.2.2, ← same]

def Life.OnValid (names : Header → Point → Prop) (config : Config) (indexers : List Indexer)
    (life : Life) : Prop :=
  ∀ past : Life, past.Moment names config indexers life → past.history.Valid

/-- With the cache on, only valid blocks and snapshots are indexed at all. -/
theorem Life.onValid {names : Header → Point → Prop} {config : Config} {indexers : List Indexer}
    {life : Life} (cached : config.utxoCache = true) (small : config.maxRollbacks < 2 ^ 64)
    (increasing : Increasing life.log) : life.OnValid names config indexers := by
  have valid (past : Life) (lived : Life.Lived names config indexers past)
      (ordered : Increasing past.log) : past.history.Valid := by
    induction lived with
    | refl => exact ⟨List.nodup_nil, trivial, trivial⟩
    | @tail before after lived step ih =>
        have earlier := VersionedLog.increasing_prefix step.log_prefix ordered
        cases step with
        | call env event known on =>
            have lived' : Life.Lived names config indexers before := lived
            have sound := lived'.sound small earlier
            obtain ⟨_, chronicle⟩ := sound.chronicle UtxosIndexed
              (utxosIndexed_invariant indexers config.network)
            apply chronicle.record_valid (ih earlier) (on cached)
            rw [(sound.transparent known on ordered).1]
            exact ordered
        | reboot => exact ih earlier
        | restart low stage rebuilt => exact ih earlier
  intro past moment
  exact valid past moment.lived (VersionedLog.increasing_prefix moment.log_prefix increasing)

/-- Whichever indexers are enabled beside each other, none of them twice, the tables of each are
after any life on valid blocks those of its own rule: with restarts, crashes, reorganisations and
snapshots on the way. -/
theorem enabled_tables (names : Header → Point → Prop) (config : Config)
    (factories : List TransactionIndexerFactory) (life : Life)
    (distinct : (factories.map TransactionIndexerFactory.kind).Nodup)
    (small : config.maxRollbacks < 2 ^ 64)
    (lived : Life.Lived names config (createIndexers factories) life)
    (increasing : Increasing life.log) (valid : life.history.Valid)
    (fits : life.history.blocks.length < 2 ^ 64) :
    let view := life.machine.stage.db.db.view
    let txs := chainTxs life.history.blocks
    (.utxosByAddress ∈ factories →
      Lists view UtxosByAddressIndexer.table (AddressListed txs)) ∧
    (∀ order script, .txCountByAddress order ∈ factories → script.length < 2 ^ 64 →
      Tallies (view (txCountKey script)) (txCount script life.history.blocks)) ∧
    (∀ indexer, .charms indexer ∈ factories → CharmsFiled indexer txs view) ∧
    (∀ indexer, .runes indexer ∈ factories →
      ∃ runes : RuneState, runes.Shown view ∧ RuneRun indexer txs runes) := by
  have sound := lived.sound small increasing
  refine ⟨?_, ?_, ?_, ?_⟩
  · intro member
    exact (addresses_rule.lived distinct member sound valid).good
  · intro order script member short
    exact sound.tallies distinct member valid short
  · intro indexer member
    have records := (enabledCharms_rule indexer).lived distinct member sound valid
    exact records.good (records.numbered.inOrder fits).1
  · intro indexer member
    have records := (enabledRunes_rule indexer).lived distinct member sound valid
    exact records.good (records.numbered.inOrder fits).1

def BlockOneOnly (header : Header) (point : Point) : Prop :=
  header = mainnetHeaderOne ∧ point = ⟨1, mainnetBlockOne⟩

instance (header : Header) : DecidablePred (BlockOneOnly header) :=
  fun _ => inferInstanceAs (Decidable (_ ∧ _))

theorem blockOneOnly_tell : HashesTell BlockOneOnly mainnetGenesis where
  same := by
    intro first second point other known known' _
    rw [known.1, known'.1]
  above := by
    intro header point known _
    rw [known.2]
    decide

theorem spendEvents_known : ∀ event ∈ spendEvents, event.2.Valid BlockOneOnly := by
  decide +kernel

def allFactories : List TransactionIndexerFactory :=
  [.txCountByAddress countingAfterAttach.order, .runes spendRunes, .utxosByAddress,
    .charms charmsOfSpends]

def allLife : Life :=
  Life.after { mainnetConfig 2 with utxoCache := true } (createIndexers allFactories) spendEvents

theorem allLife_lived : Life.Lived BlockOneOnly { mainnetConfig 2 with utxoCache := true }
      (createIndexers allFactories) allLife ∧ Increasing allLife.log ∧ allLife.history.Valid := by
  have facts : Increasing ((Machine.bootstrap (createIndexers allFactories)
        (Stage.empty { mainnetConfig 2 with utxoCache := true })).run spendEvents).stage.db.db.log ∧
      (Machine.bootstrap (createIndexers allFactories)
        (Stage.empty { mainnetConfig 2 with utxoCache := true })).uncached.ValidFrom ⟨[], []⟩
          spendEvents := by
    decide +kernel
  have lives := Life.after_valid spendEvents_known facts.2 facts.1
  refine ⟨lives.1, ?_, lives.2.2.2⟩
  rw [Life.log, allLife, lives.2.1]
  exact facts.1

theorem enabled_tables_all :
    let view := allLife.machine.stage.db.db.view
    let txs := chainTxs allLife.history.blocks
    txs.length = 3 ∧
    (.utxosByAddress ∈ allFactories →
      Lists view UtxosByAddressIndexer.table (AddressListed txs)) ∧
    (∀ order script, .txCountByAddress order ∈ allFactories → script.length < 2 ^ 64 →
      Tallies (view (txCountKey script)) (txCount script allLife.history.blocks)) ∧
    (∀ indexer, .charms indexer ∈ allFactories → CharmsFiled indexer txs view) ∧
    (∀ indexer, .runes indexer ∈ allFactories →
      ∃ runes : RuneState, runes.Shown view ∧ RuneRun indexer txs runes) := by
  intro view txs
  have facts : txs.length = 3 ∧ allLife.history.blocks.length < 2 ^ 64 := by decide +kernel
  refine ⟨facts.1, ?_⟩
  exact enabled_tables BlockOneOnly _ allFactories allLife (by decide) (by decide) allLife_lived.1
    allLife_lived.2.1 allLife_lived.2.2 facts.2

end Symphony
