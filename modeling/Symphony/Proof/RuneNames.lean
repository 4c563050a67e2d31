import Symphony.Proof.RuneRun

/-! Names and ids of runes. -/

namespace Symphony

open Encdec
open RunesIndexer
open VersionedLog (Increasing)

/-- Reserved names differ and are known as reserved. -/
structure Ordinals.Reserves (ordinals : Ordinals) : Prop where
  injective : ∀ block tx block' tx', ordinals.reserved block tx = ordinals.reserved block' tx' →
    block = block' ∧ tx = tx'
  marked : ∀ block tx, ordinals.isReserved (ordinals.reserved block tx) = true

/-- The tables of names and of entries are inverse, and a reserved name is that of its id. -/
structure Named (ordinals : Ordinals) (runes : RuneState) : Prop where
  inverse : ∀ name id, runes.names name = some id ↔
    ∃ info, runes.infos id = some info ∧ info.name = name
  reserved : ∀ id info, runes.infos id = some info → ordinals.isReserved info.name = true →
    info.name = ordinals.reserved id.block id.tx

namespace Named

variable {indexer : RunesIndexer} {set : UtxoSet} {height : BlockHeight} {blockIndex : Nat}
variable {tx : TransactionWithId} {before : RuneState}

theorem unnamed (named : Named indexer.ordinals before) (reserves : indexer.ordinals.Reserves)
    (call : RuneCall indexer set height blockIndex tx before) {id : RuneId} {name : Rune}
    {info : RuneInfo} (etches : call.etched = some (id, name, info)) (unknown : before.infos id = none) :
    before.names name = none := by
  rcases call.etches id name info etches with ⟨artifact, _, rules, _⟩
  rcases rules.name with ⟨_, reserved⟩ | ⟨_, _, known, _⟩
  · cases taken : before.names name with
    | none => rfl
    | some other =>
        rcases (named.inverse name other).mp taken with ⟨entry, found, same⟩
        have marked := reserves.marked id.block id.tx
        rw [← reserved, ← same] at marked
        have own := named.reserved other entry found marked
        rw [same, reserved] at own
        have parts := reserves.injective _ _ _ _ own
        have equal : id = other := by
          cases id
          cases other
          exact RuneId.mk.injEq .. ▸ parts
        rw [equal, found] at unknown
        cases unknown
  · exact known

theorem active (named : Named indexer.ordinals before) (reserves : indexer.ordinals.Reserves)
    (call : RuneCall indexer set height blockIndex tx before)
    (unknown : ∀ rune, call.etched = some rune → before.infos rune.1 = none) :
    Named indexer.ordinals call.after := by
  have infos := call.infos_after
  have names := call.names_after
  cases etches : call.etched with
  | none =>
      rw [etches] at infos names
      simp only at infos names
      exact ⟨by rw [infos, names]; exact named.inverse, by rw [infos]; exact named.reserved⟩
  | some rune =>
      rcases rune with ⟨id, name, info⟩
      have new := unknown _ etches
      have unused := named.unnamed reserves call etches new
      rcases call.etches id name info etches with ⟨artifact, _, rules, entered⟩
      have own := runeInfo_name entered
      rw [etches] at infos names
      simp only at infos names
      constructor
      · intro other given
        rw [infos, names]
        by_cases sameName : other = name
        · -- the new name leads to the new id only
          subst sameName
          rw [Function.update_self, Option.some.injEq]
          constructor
          · intro equal
            rw [← equal]
            exact ⟨info, Function.update_self .., own⟩
          · rintro ⟨entry, found, held⟩
            by_contra different
            rw [Function.update_of_ne (fun equal => different equal.symm)] at found
            have taken := (named.inverse other given).mpr ⟨entry, found, held⟩
            rw [unused] at taken
            cases taken
        · rw [Function.update_of_ne sameName, named.inverse]
          by_cases sameId : given = id
          · subst sameId
            rw [Function.update_self, new]
            constructor
            · rintro ⟨entry, impossible, _⟩
              cases impossible
            · rintro ⟨entry, found, held⟩
              rw [← Option.some.inj found, own] at held
              exact absurd held.symm sameName
          · rw [Function.update_of_ne sameId]
      · intro given entry found marked
        rw [infos] at found
        by_cases sameId : given = id
        · subst sameId
          rw [Function.update_self, Option.some.injEq] at found
          subst found
          rw [own] at marked ⊢
          rcases rules.name with ⟨_, reserved⟩ | ⟨_, plain, _⟩
          · exact reserved
          · rw [plain] at marked
            cases marked
        · rw [Function.update_of_ne sameId] at found
          exact named.reserved given entry found marked

theorem kept (named : Named indexer.ordinals before) (reserves : indexer.ordinals.Reserves)
    (call : RuneCall indexer set height blockIndex tx before)
    (unknown : ∀ rune, call.etched = some rune → before.infos rune.1 = none) :
    (∀ id info, before.infos id = some info → call.after.infos id = some info) ∧
      ∀ name id, before.names name = some id → call.after.names name = some id := by
  have infos := call.infos_after
  have names := call.names_after
  cases etches : call.etched with
  | none =>
      rw [etches] at infos names
      simp only at infos names
      rw [infos, names]
      exact ⟨fun _ _ => id, fun _ _ => id⟩
  | some rune =>
      rcases rune with ⟨id, name, info⟩
      have new := unknown _ etches
      have unused := named.unnamed reserves call etches new
      rw [etches] at infos names
      simp only at infos names new
      rw [infos, names]
      constructor
      · intro other entry found
        have different : other ≠ id := by
          rintro rfl
          rw [new] at found
          cases found
        rw [Function.update_of_ne different]
        exact found
      · intro other given found
        have different : other ≠ name := by
          rintro rfl
          rw [unused] at found
          cases found
        rw [Function.update_of_ne different]
        exact found

end Named

theorem RuneRun.named {indexer : RunesIndexer} {past : List IndexedTx} {runes : RuneState}
    (run : RuneRun indexer past runes) (reserves : indexer.ordinals.Reserves) :
    Named indexer.ordinals runes := by
  induction run with
  | nil =>
      constructor
      · intro name id
        constructor
        · intro impossible
          cases impossible
        · rintro ⟨_, impossible, _⟩
          cases impossible
      · intro id info impossible
        cases impossible
  | @cons past step before after run ordered fresh valid leads ih =>
      cases leads with
      | idle early plain => exact ih
      | active call attached => exact ih.active reserves call (run.unknown_etched ordered call)

/-- After every run of valid blocks, snapshots and rollbacks the tables of names and of entries are
inverse; so they are between any two transactions of what is indexed next, and no call changes a
name or an entry that is there. -/
theorem rune_names_bijective (blockHash : Header → BlockHash) (config : Config)
    (indexer : RunesIndexer) (others : Others .runes) (stage : Stage)
    (events : List (Env × ChainEvent)) (reserves : indexer.ordinals.Reserves)
    (fresh : Stage.new config (StorageHandler.openDb DB.empty) = .ok stage)
    (fed : ∀ event ∈ events, event.2.Valid (HashedBy blockHash))
    (increasing : Increasing ((Machine.bootstrap (others.with indexer.processTx) stage).run
      events).stage.db.db.log)
    (valid : (Machine.bootstrap (others.with indexer.processTx) stage).uncached.ValidFrom ⟨[], []⟩
      events)
    (fits : ((Machine.bootstrap (others.with indexer.processTx) stage).uncached.history
      events).blocks.length < 2 ^ 64) :
    let machine := Machine.bootstrap (others.with indexer.processTx) stage
    let reader := (machine.run events).stage.db.reader Timestamp.latest
    (∀ name id, reader.get RuneIdByNameKV name = .ok (some id) ↔
      ∃ info, reader.get RuneInfoByIdKV id = .ok (some info) ∧ info.name = name) ∧
    NextPoints (others.with indexer.processTx) config.network (machine.uncached.run events).stage
      (machine.uncached.history events).confirmed (fun point =>
        (∀ name id, point.task.get RuneIdByNameKV name = .ok (some id) ↔
          ∃ info, point.task.get RuneInfoByIdKV id = .ok (some info) ∧ info.name = name) ∧
        ∀ tx ∈ point.rest.head?, ∀ after ctx', runIndexers tx point.blockIndex point.task point.ctx
          (others.with indexer.processTx) = .ok (after, ctx') →
            (∀ name id, point.task.get RuneIdByNameKV name = .ok (some id) →
              after.get RuneIdByNameKV name = .ok (some id)) ∧
            ∀ id info, point.task.get RuneInfoByIdKV id = .ok (some info) →
              after.get RuneInfoByIdKV id = .ok (some info)) := by
  rw [Stage.new_empty, Except.ok.injEq] at fresh
  subst fresh
  intro machine reader
  have records := (runes_rule indexer).run others (HashedBy blockHash) config events fed valid
    increasing
  constructor
  · rcases records.runeRun fits with ⟨runes, shown, run⟩
    have names (name : Rune) : reader.get RuneIdByNameKV name = .ok (runes.names name) :=
      shown.read_name name
    have infos (id : RuneId) : reader.get RuneInfoByIdKV id = .ok (runes.infos id) :=
      shown.read_info id
    intro name id
    simp only [names, infos, Except.ok.injEq]
    exact (run.named reserves).inverse name id
  · apply ((runes_rule indexer).points others (HashedBy blockHash) config events fed valid
      increasing).mono
    intro point midway
    rcases midway.runes with ⟨runes, shown, run, calls⟩
    have named := run.named reserves
    constructor
    · intro name id
      simp only [shown.get_name, shown.get_info, Except.ok.injEq]
      exact named.inverse name id
    · intro tx head after ctx' ran
      rcases calls tx head after ctx' ran with ⟨next, done, leads⟩
      simp only [shown.get_name, shown.get_info, done.get_name, done.get_info, Except.ok.injEq]
      have stepped := leads ctx'.metadataOf (fun _ _ => rfl)
      cases stepped with
      | idle early plain => exact ⟨fun _ _ => id, fun _ _ => id⟩
      | active call attached =>
          have kept := named.kept reserves call (run.unknown_etched (midway.ordered tx _) call)
          exact ⟨kept.2, kept.1⟩

theorem spendOrdinals_reserves : spendOrdinals.Reserves := by
  have value (block : U64) (tx : U32) : (spendOrdinals.reserved block tx).toNat =
      2 ^ 96 + block.toNat * 2 ^ 32 + tx.toNat := by
    have high := block.isLt
    have low := tx.isLt
    simp only [spendOrdinals, BitVec.toNat_ofNat]
    omega
  constructor
  · intro block tx block' tx' same
    have equal := congrArg BitVec.toNat same
    rw [value, value] at equal
    have low := tx.isLt
    have low' := tx'.isLt
    exact ⟨BitVec.eq_of_toNat_eq (by omega), BitVec.eq_of_toNat_eq (by omega)⟩
  · intro block tx
    have above : 2 ^ 96 ≤ (spendOrdinals.reserved block tx).toNat := by
      rw [value]
      omega
    exact decide_eq_true above

/-- The coinbase of block one etched a rune under the name reserved for it. -/
theorem rune_names_spend :
    let reader := (runesMachine.run spendEvents).stage.db.reader Timestamp.latest
    reader.get RuneIdByNameKV (spendOrdinals.reserved 1 0) = .ok (some ⟨1, 0⟩) ∧
    ∀ name id, reader.get RuneIdByNameKV name = .ok (some id) ↔
      ∃ info, reader.get RuneInfoByIdKV id = .ok (some info) ∧ info.name = name := by
  rcases rune_names_bijective mainnetHash (mainnetConfig 2) spendRunes (.alone .runes) _
    spendEvents spendOrdinals_reserves (Stage.new_empty _) spendEvents_fed runesMachine_run.1
    runesMachine_run.2.1 (Nat.lt_of_succ_lt runesMachine_run.2.2) with ⟨inverse, _⟩
  unfold runesMachine
  exact ⟨by decide +kernel, inverse⟩

end Symphony
