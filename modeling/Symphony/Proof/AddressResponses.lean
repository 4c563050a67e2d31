import Symphony.Proof.EnabledIndexers
import Symphony.Proof.OwnedScans
import Symphony.Spec.OutputIndex

/-! What the routes for the outputs and the transactions of an address respond. -/

namespace Symphony

open Encdec
open Serve
open VersionedLog (Commit Increasing)

/-- The response lists the outputs of the script in the set, each once, in the order of their heights. -/
structure ListsOutputs (set : UtxoSet) (script : ScriptPubKey) (utxos : List AddressUtxo) : Prop where
  ascending : utxos.Pairwise (fun first second => first.height ≤ second.height)
  distinct : (utxos.map (fun utxo => (⟨utxo.txHash, utxo.outputIndex⟩ : TxoRef))).Nodup
  mem : ∀ entry, entry ∈ utxos ↔ ∃ utxo, set ⟨entry.txHash, entry.outputIndex⟩ = some utxo ∧
    utxo.script = script ∧ utxo.height = entry.height ∧ utxo.satoshis = entry.satoshis

section Listing

variable {reader : Reader} {set : UtxoSet} {keys : List UtxosByAddressKey}
variable {history : History} {machine : Machine} {script : ScriptPubKey}

def addressUtxo (key : UtxosByAddressKey) (utxo : Utxo) : AddressUtxo :=
  ⟨key.txoRef.txHash, key.txoRef.txoIndex, key.producedHeight, utxo.satoshis⟩

theorem collectAddressUtxos_ok (stored : ∀ ref, reader.get UtxoByTxoRefKV ref = .ok (set ref))
    (unspent : ∀ key ∈ keys, (set key.txoRef).isSome) :
    ∃ utxos, collectAddressUtxos reader (keys.map (fun key => .ok (key, ()))) = .ok utxos ∧
      utxos.map AddressUtxo.height = keys.map OwnedUtxoKey.producedHeight ∧
      utxos.map (fun utxo => ⟨utxo.txHash, utxo.outputIndex⟩) = keys.map OwnedUtxoKey.txoRef ∧
      ∀ entry, entry ∈ utxos ↔ ∃ key ∈ keys, ∃ utxo, set key.txoRef = some utxo ∧
        entry = addressUtxo key utxo := by
  induction keys with
  | nil => exact ⟨[], rfl, rfl, rfl, by simp⟩
  | cons key keys ih =>
      rw [List.forall_mem_cons] at unspent
      rcases ih unspent.2 with ⟨utxos, collected, heights, refs, mem⟩
      obtain ⟨utxo, found⟩ := Option.isSome_iff_exists.mp unspent.1
      have expected : getExpectedAt reader UtxoByTxoRefKV debugTxoRef key.txoRef = .ok utxo := by
        rw [getExpectedAt, stored, found]
      refine ⟨addressUtxo key utxo :: utxos, ?_, ?_, ?_, ?_⟩
      · simp only [List.map_cons, collectAddressUtxos, expected, collected]
        rfl
      · rw [List.map_cons, List.map_cons, heights]
        rfl
      · rw [List.map_cons, List.map_cons, refs]
        rfl
      · intro entry
        rw [List.mem_cons, mem, List.exists_mem_cons_iff]
        simp only [found, Option.some.injEq, exists_eq_left']

/-- The response for a script that the UTXO set does not leave out. -/
theorem Records.addressUtxos (records : Records AddressesListed history machine)
    (keyed : Records (KeyedBy .utxosByAddress (OwnedRaw [UtxosByAddressIndexer.table])) history machine)
    (room : history.blocks.length + 1 < 2 ^ 64) (sees : reader.Sees machine.stage.db.db.view)
    (plain : isOpReturn script = false) (short : script.length < 2 ^ 64) :
    ∃ utxos, addressesUtxosByAddress reader script = .ok utxos ∧
      ListsOutputs (unspent history.blocks) script utxos := by
  have lists : Lists machine.stage.db.db.view UtxosByAddressIndexer.table
      (AddressListed (chainTxs history.blocks)) := records.good
  have apart : ∀ other ∈ [UtxosByAddressIndexer.table], other = UtxosByAddressIndexer.table ∨
      other.indexer = UtxosByAddressIndexer.table.indexer ∧
        other.table ≠ UtxosByAddressIndexer.table.table := by
    intro other member
    exact Or.inl (List.mem_singleton.mp member)
  rcases records.ownedKeys UtxosByAddressIndexer.table keyed apart lists
    (fun _ => AddressListed.step) room sees short with ⟨keys, scan, sorted, mem⟩
  have stored := records.stored sees
  have held (key : UtxosByAddressKey) : key ∈ keys ↔ key.owner = script ∧
      HoldsOutput (unspent history.blocks) script key.producedHeight key.txoRef := by
    rw [mem, ← unspentAfter_chainTxs]
    apply and_congr_right
    rintro rfl
    apply AddressListed.iff.mpr
    intro stuck
    rw [stuck.1] at plain
    cases plain
  have live : ∀ key ∈ keys, (unspent history.blocks key.txoRef).isSome := by
    intro key member
    rcases ((held key).mp member).2 with ⟨utxo, found, _⟩
    rw [found]
    rfl
  rcases collectAddressUtxos_ok stored live with ⟨utxos, collected, heights, refs, entries⟩
  have saturated : RunesIndexer.heightAfter u64Max 1 = u64Max := by decide
  refine ⟨utxos, ?_, ?_, ?_, ?_⟩
  · rw [addressesUtxosByAddress, saturated, ← collected, ← scan]
    rfl
  · rw [← List.pairwise_map, heights]
    exact heights_ascending (fun key member => ((held key).mp member).1) sorted
  · rw [refs]
    apply refs_distinct (fun key member => ((held key).mp member).1) sorted
    intro first left second right same
    obtain ⟨_, utxo, found, _, height⟩ := (held first).mp left
    obtain ⟨_, utxo', found', _, height'⟩ := (held second).mp right
    rw [same, found', Option.some.injEq] at found
    rw [← height, ← height', found]
  · intro entry
    rw [entries]
    constructor
    · rintro ⟨key, member, utxo, found, rfl⟩
      rcases ((held key).mp member).2 with ⟨utxo', found', owner, height⟩
      rw [found, Option.some.injEq] at found'
      subst found'
      exact ⟨utxo, found, owner, height, rfl⟩
    · rintro ⟨utxo, found, owner, height, satoshis⟩
      refine ⟨⟨script, entry.height, ⟨entry.txHash, entry.outputIndex⟩⟩, ?_, utxo, found, ?_⟩
      · exact (held _).mpr ⟨rfl, utxo, found, owner, height⟩
      · rw [addressUtxo, satoshis]

end Listing

section Counting

variable {script : ScriptPubKey} (height : BlockHeight) (attached : TxoRef → ExtendedUtxoData)

def HeldBy (set : UtxoSet) (script : ScriptPubKey) (hashes : List Txid) : Prop :=
  ∀ ref utxo, set ref = some utxo → utxo.script = script → ref.txHash ∈ hashes

theorem HeldBy.tx {set : UtxoSet} {hashes : List Txid} (held : HeldBy set script hashes)
    (tx : TransactionWithId) : HeldBy (applyTx set height attached tx) script
      ((if tx.Involves set script then [tx.txId] else []) ++ hashes) := by
  intro ref utxo found owner
  rw [List.mem_append]
  rcases applyTx_cases found with ⟨output, created, rfl⟩ | ⟨_, _, before⟩
  · have hash := TransactionWithId.txHash_of_creates created
    have listed : output ∈ tx.tx.output := by
      rw [TransactionWithId.creates_eq, Option.filter_eq_some_iff, TransactionWithId.outputAt,
        if_pos hash] at created
      exact List.mem_of_getElem? created.1
    have involved : tx.Involves set script := Or.inr ⟨output, listed, owner⟩
    rw [if_pos involved, hash]
    exact Or.inl List.mem_cons_self
  · exact Or.inr (held ref utxo before owner)

theorem HeldBy.txs {set : UtxoSet} {hashes : List Txid} (held : HeldBy set script hashes)
    (txs : BlockTxs) : ∃ more, HeldBy (applyTxs set height attached txs) script (more ++ hashes) ∧
      more.length ≤ involving script set height attached txs := by
  induction txs generalizing set hashes with
  | nil => exact ⟨[], held, Nat.le_refl _⟩
  | cons tx txs ih =>
      obtain ⟨more, after, few⟩ := ih (held.tx height attached tx)
      refine ⟨more ++ (if tx.Involves set script then [tx.txId] else []), ?_, ?_⟩
      · rw [List.append_assoc]
        exact after
      · rw [List.length_append, involving]
        split
        · rw [List.length_singleton]
          omega
        · rw [List.length_nil]
          omega

theorem heldBy_counted (script : ScriptPubKey) (blocks : List IndexedBlock) :
    ∃ hashes, HeldBy (unspent blocks) script hashes ∧ hashes.length ≤ txCount script blocks := by
  induction blocks with
  | nil =>
      refine ⟨[], ?_, Nat.le_refl _⟩
      intro ref utxo found
      cases found
  | cons block below ih =>
      obtain ⟨hashes, held, few⟩ := ih
      obtain ⟨more, after, counted⟩ := held.txs block.point.height block.attached block.txs
      refine ⟨more ++ hashes, after, ?_⟩
      rw [List.length_append, txCount]
      omega

theorem ListsOutputs.count {blocks : List IndexedBlock} {utxos : List AddressUtxo}
    (lists : ListsOutputs (unspent blocks) script utxos) :
    (utxos.map AddressUtxo.txHash).dedup.length ≤ txCount script blocks := by
  obtain ⟨hashes, held, few⟩ := heldBy_counted script blocks
  have inside : (utxos.map AddressUtxo.txHash).dedup ⊆ hashes := by
    intro hash member
    obtain ⟨entry, listed, rfl⟩ := List.mem_map.mp (List.mem_dedup.mp member)
    obtain ⟨utxo, found, owner, _⟩ := (lists.mem entry).mp listed
    exact held _ utxo found owner
  have shorter := (List.subperm_of_subset (List.nodup_dedup _) inside).length_le
  omega

end Counting

/-- A request to a life with these indexers: it has its reader from a storage of the life, and reads the
database that there is by then, which keeps the versions of the reader's timestamp. No indexer is
enabled twice, and the node has fed valid blocks. -/
structure Life.Request (names : Header → Point → Prop) (config : Config)
    (factories : List TransactionIndexerFactory) (life : Life) (storage : StorageHandler)
    (mempool : Bool) (reader : Reader) (info : Serve.IndexerInfo) (later : DB) : Prop where
  small : config.maxRollbacks < 2 ^ 64
  tell : HashesTell names config.genesisHash
  distinct : (factories.map TransactionIndexerFactory.kind).Nodup
  lived : Life.Lived names config (createIndexers factories) life
  increasing : Increasing life.log
  valid : life.OnValid names config (createIndexers factories)
  reached : storage.db.log <+: later.log
  within : later.log <+: life.log
  kept : later.Keeps reader.timestamp
  started : ∃ formatUtc, startReader formatUtc storage mempool = .ok (reader, info)

structure Life.Answers (names : Header → Point → Prop) (config : Config)
    (factories : List TransactionIndexerFactory) (life past : Life) (storage : StorageHandler)
    (mempool : Bool) (reader : Reader) (info : Serve.IndexerInfo) : Prop where
  serves : life.Serves names config (createIndexers factories) past storage reader info
  asked : mempool = false → past.history.snapshot = []

section Requests

variable {names : Header → Point → Prop} {config : Config}
variable {factories : List TransactionIndexerFactory} {life : Life} {storage : StorageHandler}
variable {mempool : Bool} {reader : Reader} {info : Serve.IndexerInfo} {later : DB}

theorem Life.Request.answered
    (request : life.Request names config factories storage mempool reader info later) :
    ∃ past, life.Answers names config factories past storage mempool reader info ∧
      past.Sound names config (createIndexers factories) ∧ past.history.Valid ∧
      Reader.Sees ⟨later, reader.timestamp⟩ past.machine.stage.db.db.view := by
  obtain ⟨formatUtc, success⟩ := request.started
  obtain ⟨past, serves, asked⟩ := request.lived.served request.small request.tell request.increasing
    (request.reached.trans request.within) success
  exact ⟨past, ⟨serves, asked⟩, serves.sound request.small request.increasing,
    request.valid past serves.moment,
    serves.sees later request.reached request.within request.kept⟩

end Requests

/-- As long as the database keeps the versions that a request reads, and whichever indexers are
enabled beside the two: the outputs an address is responded with are exactly those of its script that
are unspent at the moment the request is served from, each once and in the order of their heights; the
number of transactions is the one of that moment, and no smaller than the transactions of these
outputs. -/
theorem addresses_served (names : Header → Point → Prop) (config : Config)
    (factories : List TransactionIndexerFactory) (order : SetOrder) (life : Life)
    (storage : StorageHandler) (mempool : Bool) (reader : Reader) (info : Serve.IndexerInfo)
    (later : DB) (script : ScriptPubKey)
    (request : life.Request names config factories storage mempool reader info later)
    (listing : .utxosByAddress ∈ factories) (counting : .txCountByAddress order ∈ factories)
    (plain : isOpReturn script = false) (short : script.length < 2 ^ 64) :
    let seen : Reader := ⟨later, reader.timestamp⟩
    ∃ past, life.Answers names config factories past storage mempool reader info ∧
      (past.history.blocks.length + 1 < 2 ^ 64 → txCount script past.history.blocks < 2 ^ 64 →
        ∃ utxos count, addressesUtxosByAddress seen script = .ok utxos ∧
          ListsOutputs (unspent past.history.blocks) script utxos ∧
          addressesTxCountByAddress seen script = .ok count ∧
          count.toNat = txCount script past.history.blocks ∧
          (utxos.map AddressUtxo.txHash).dedup.length ≤ count.toNat) := by
  intro seen
  obtain ⟨past, answers, sound, history, sees⟩ := request.answered
  refine ⟨past, answers, ?_⟩
  intro room few
  have keyed : TxRule (TransactionIndexerFactory.kind .utxosByAddress)
      (TransactionIndexerFactory.createIndexer .utxosByAddress)
      (KeyedBy .utxosByAddress (OwnedRaw [UtxosByAddressIndexer.table])) :=
    keyedBy_rule (fun tx blockIndex ctx => UtxosByAddressIndexer.processTx_within tx blockIndex ctx)
  have listed := (addresses_rule.lived request.distinct listing sound history).addressUtxos
    (keyed.lived request.distinct listing sound history) room sees plain short
  obtain ⟨utxos, response, lists⟩ := listed
  obtain ⟨value, decoded, total⟩ :=
    (sound.tallies request.distinct counting history short).decode few
  have read : seen.get TxCountByAddressKV script = .ok value := by
    rw [sees.get]
    exact decoded
  refine ⟨utxos, value.getD 0, response, lists, ?_, total, ?_⟩
  · rw [addressesTxCountByAddress, read]
  · rw [total]
    exact lists.count

theorem allLife_request {mempool : Bool} {reader : Reader} {info : Serve.IndexerInfo}
    (success : startReader epochOnly allLife.machine.stage.db mempool = .ok (reader, info))
    (kept : allLife.machine.stage.db.db.Keeps reader.timestamp) :
    allLife.Request BlockOneOnly { mainnetConfig 2 with utxoCache := true } allFactories
      allLife.machine.stage.db mempool reader info allLife.machine.stage.db.db where
  small := by decide
  tell := blockOneOnly_tell
  distinct := by decide
  lived := allLife_lived.1
  increasing := allLife_lived.2.1
  valid := Life.onValid rfl (by decide) allLife_lived.2.1
  reached := List.prefix_rfl
  within := List.prefix_rfl
  kept := kept
  started := ⟨epochOnly, success⟩

theorem allLife_reader {mempool : Bool} {moment : Timestamp}
    (read : (startReader epochOnly allLife.machine.stage.db mempool).map
      (fun served => served.1.timestamp) = .ok moment)
    (kept : allLife.machine.stage.db.db.Keeps moment) :
    ∃ reader info, startReader epochOnly allLife.machine.stage.db mempool = .ok (reader, info) ∧
      allLife.machine.stage.db.db.Keeps reader.timestamp ∧ reader.timestamp = moment := by
  cases served : startReader epochOnly allLife.machine.stage.db mempool with
  | error failure =>
      rw [served] at read
      cases read
  | ok served' =>
      rw [served, Except.map, Except.ok.injEq] at read
      exact ⟨served'.1, served'.2, rfl, read ▸ kept, read⟩

theorem allLife_mempool : ∃ reader info,
    startReader epochOnly allLife.machine.stage.db true = .ok (reader, info) ∧
      allLife.machine.stage.db.db.Keeps reader.timestamp ∧ reader.timestamp = .new 8 :=
  allLife_reader (by decide +kernel) (by rw [DB.Keeps]; decide +kernel)

theorem allLife_confirmed : ∃ reader info,
    startReader epochOnly allLife.machine.stage.db false = .ok (reader, info) ∧
      allLife.machine.stage.db.db.Keeps reader.timestamp ∧ reader.timestamp = .new 6 :=
  allLife_reader (by decide +kernel) (by rw [DB.Keeps]; decide +kernel)

/-- The address of the last output of the snapshot has one output and two transactions. -/
theorem addresses_served_snapshot :
    ∃ reader info, startReader epochOnly allLife.machine.stage.db true = .ok (reader, info) ∧
      let seen : Reader := ⟨allLife.machine.stage.db.db, reader.timestamp⟩
      addressesUtxosByAddress seen [82] = .ok [⟨txIdOf 3, 0, 3, 40⟩] ∧
      ∃ past, allLife.Answers BlockOneOnly { mainnetConfig 2 with utxoCache := true } allFactories
          past allLife.machine.stage.db true reader info ∧
        (past.history.blocks.length + 1 < 2 ^ 64 → txCount [82] past.history.blocks < 2 ^ 64 →
          ∃ utxos count, addressesUtxosByAddress seen [82] = .ok utxos ∧
            ListsOutputs (unspent past.history.blocks) [82] utxos ∧
            addressesTxCountByAddress seen [82] = .ok count ∧
            count.toNat = txCount [82] past.history.blocks ∧
            (utxos.map AddressUtxo.txHash).dedup.length ≤ count.toNat) := by
  obtain ⟨reader, info, success, kept, moment⟩ := allLife_mempool
  have response : addressesUtxosByAddress ⟨allLife.machine.stage.db.db, reader.timestamp⟩ [82] =
      .ok [⟨txIdOf 3, 0, 3, 40⟩] := by
    rw [moment]
    decide +kernel
  refine ⟨reader, info, success, response, ?_⟩
  exact addresses_served BlockOneOnly _ allFactories countingAfterAttach.order allLife _ true reader
    info _ [82] (allLife_request success kept) (by simp [allFactories])
    (by simp [allFactories]) (by decide) (by decide)

end Symphony
