import Symphony.Proof.Undo
import Symphony.Sync.IndexSpec

/-! The chain invariant of the index stage under any order of events.

A chain is kept newest point first. The core tables describe it after every commit, and the
rollback buffer holds its newest points, below the mempool pseudo point if there is one. -/

namespace Symphony

open Encdec
open UndoLog (Agree)
open VersionedLog (Commit Increasing)

def chainTop (genesis : BlockHash) : List Point → Point
  | [] => ⟨0, genesis⟩
  | point :: _ => point

/-- Heights count down to one, and each point's header names the hash below it; `names` says
which headers stand for a point. -/
def Linked (names : Header → Point → Prop) (genesis : BlockHash) : List Point → Prop
  | [] => True
  | point :: below => point.height.toNat = below.length + 1 ∧
      (∃ header, names header point ∧
        header.prevBlockhash = (chainTop genesis below).hash) ∧
      Linked names genesis below

/-- What `HashByHeightKV` holds for a chain. -/
def hashAt (chain : List Point) (key : RawKey) : Cell :=
  .ok ((chain.find? (fun point => HashByHeightKV.encodeKey point.height = key)).map
    (fun point => encode point.hash))

def InfoMatches (chain : List Point) (mempool : Bool) (cell : Cell) : Prop :=
  (chain = [] ∧ mempool = false ∧ cell = .ok none) ∨
  ∃ point below, ∃ info : IndexerInfo, chain = point :: below ∧
    cell = .ok (some (encode info)) ∧ info.lastPointHash = point.hash ∧ info.mempool = mempool ∧
    (mempool = false → info.lastPointHeight = point.height)

/-- The core tables of a view describe the chain. -/
structure ChainTables (view : RawKey → Cell) (chain : List Point) (mempool : Bool) : Prop where
  hashes : ∀ key, HashByHeightKV.Holds key → view key = hashAt chain key
  info : InfoMatches chain mempool (view (IndexerInfoKV.encodeKey ()))

theorem hashAt_cons (point : Point) (chain : List Point) (key : RawKey) :
    hashAt (point :: chain) key =
      if key = HashByHeightKV.encodeKey point.height then .ok (some (encode point.hash))
      else hashAt chain key := by
  by_cases same : key = HashByHeightKV.encodeKey point.height
  · rw [if_pos same, hashAt, List.find?_cons_of_pos (by simpa using same.symm)]
    rfl
  · rw [if_neg same, hashAt, List.find?_cons_of_neg (by simpa using Ne.symm same)]
    rfl

theorem not_isTxKey_hash {key : RawKey} (held : HashByHeightKV.Holds key) : ¬ IsTxKey key :=
  not_isTxKey_of_core 72 key (by decide) held

theorem not_isTxKey_info : ¬ IsTxKey (IndexerInfoKV.encodeKey ()) :=
  not_isTxKey_of_core 73 _ (by decide) (Table.holds_encodeKey IndexerInfoKV _)

theorem ChainTables.of_agree {view other : RawKey → Cell} {chain : List Point} {mempool : Bool}
    (tables : ChainTables other chain mempool) (agree : Agree IsData view other) :
    ChainTables view chain mempool := by
  constructor
  · intro key held
    rw [agree key (isData_hash held)]
    exact tables.hashes key held
  · rw [agree _ isData_info]
    exact tables.info

theorem chainTables_empty : ChainTables DB.empty.view [] false := by
  refine ⟨?_, Or.inl ⟨rfl, rfl, rfl⟩⟩
  intro key _
  rfl

/-- Ledger entries for the newest points of a chain, each with the tables it left. -/
def Tracked : List Point → List LedgerEntry → Prop
  | _, [] => True
  | [], _ :: _ => False
  | point :: below, entry :: rest => entry.block.point = point ∧
      ChainTables entry.view (point :: below) false ∧ Tracked below rest

theorem Tracked.drop {chain : List Point} {ledger : List LedgerEntry} (count : Nat)
    (tracked : Tracked chain ledger) : Tracked (chain.drop count) (ledger.drop count) := by
  induction count generalizing chain ledger with
  | zero => exact tracked
  | succ count ih =>
      cases ledger with
      | nil => cases h : chain.drop (count + 1) <;> trivial
      | cons entry rest =>
          cases chain with
          | nil => cases tracked
          | cons point below => exact ih tracked.2.2

theorem Tracked.take {chain : List Point} {ledger : List LedgerEntry} (count : Nat)
    (tracked : Tracked chain ledger) : Tracked chain (ledger.take count) := by
  induction count generalizing chain ledger with
  | zero => cases chain <;> trivial
  | succ count ih =>
      cases ledger with
      | nil => cases chain <;> trivial
      | cons entry rest =>
          cases chain with
          | nil => cases tracked
          | cons point below => exact ⟨tracked.1, tracked.2.1, ih tracked.2.2⟩

theorem Tracked.lookup {chain : List Point} {ledger : List LedgerEntry} {index : Nat}
    {entry : LedgerEntry} (tracked : Tracked chain ledger) (found : ledger[index]? = some entry) :
    ∃ below, chain.drop index = entry.block.point :: below ∧
      ChainTables entry.view (chain.drop index) false := by
  induction index generalizing chain ledger with
  | zero =>
      cases ledger with
      | nil => cases found
      | cons first rest =>
          obtain rfl : first = entry := by simpa using found
          cases chain with
          | nil => cases tracked
          | cons point below =>
              rw [List.drop_zero, ← tracked.1]
              exact ⟨below, rfl, tracked.1 ▸ tracked.2.1⟩
  | succ index ih =>
      cases ledger with
      | nil => cases found
      | cons first rest =>
          cases chain with
          | nil => cases tracked
          | cons point below => exact ih tracked.2.2 (by simpa using found)

/-- The entries of confirmed blocks, below that of a mempool snapshot if one is indexed. -/
def Layered (mempool : Bool) (tip : Point) (ledger confirmed : List LedgerEntry) : Prop :=
  if mempool then
    ∃ entry, entry.block.point = Machine.mempoolPoint tip ∧ ledger = entry :: confirmed
  else ledger = confirmed

theorem Layered.confirmed {mempool : Bool} {tip : Point} {ledger confirmed : List LedgerEntry}
    {index : Nat} {entry : LedgerEntry} (layered : Layered mempool tip ledger confirmed)
    (found : ledger[index]? = some entry) (low : entry.block.point.height ≠ u64Max) :
    ∃ below, confirmed[below]? = some entry ∧ ledger.drop index = confirmed.drop below := by
  cases mempool with
  | false =>
      rw [show ledger = confirmed from layered] at found ⊢
      exact ⟨index, found, rfl⟩
  | true =>
      rcases layered with ⟨first, pseudo, rfl⟩
      cases index with
      | zero =>
          rw [List.getElem?_cons_zero, Option.some.injEq] at found
          rw [← found, pseudo] at low
          exact absurd rfl low
      | succ below => exact ⟨below, by simpa using found, rfl⟩

def confirmedEntries (mempool : Bool) (ledger : List LedgerEntry) : List LedgerEntry :=
  if mempool then ledger.drop 1 else ledger

theorem Layered.entries {mempool : Bool} {tip : Point} {ledger confirmed : List LedgerEntry}
    (layered : Layered mempool tip ledger confirmed) :
    confirmedEntries mempool ledger = confirmed := by
  cases mempool with
  | false => exact layered
  | true =>
      rcases layered with ⟨entry, _, rfl⟩
      rfl

/-- A ledger that holds a new entry with the given view above entries of the old one. -/
def Grown (view : RawKey → Cell) (ledger grown : List LedgerEntry) : Prop :=
  ∀ index entry, grown[index]? = some entry →
    (index = 0 ∧ entry.view = view) ∨ ∃ below, index = below + 1 ∧ ledger[below]? = some entry

theorem grown_cons {view : RawKey → Cell} {ledger : List LedgerEntry} {entry : LedgerEntry}
    (count : Nat) (same : entry.view = view) : Grown view ledger (entry :: ledger.take count) := by
  intro index other found
  cases index with
  | zero =>
      rw [List.getElem?_cons_zero, Option.some.injEq] at found
      exact Or.inl ⟨rfl, found ▸ same⟩
  | succ below =>
      rw [List.getElem?_cons_succ, List.getElem?_take] at found
      split at found
      · exact Or.inr ⟨below, rfl, found⟩
      · cases found

/-- The state of the stage matches a chain, with a ledger of the blocks it can undo. -/
structure ChainInv (names : Header → Point → Prop) (genesis : BlockHash) (machine : Machine)
    (chain : List Point) (ledger : List LedgerEntry) : Prop where
  linked : Linked names genesis chain
  low : ∀ point ∈ chain, point.height ≠ u64Max
  tables : ChainTables machine.stage.db.db.view chain machine.stage.processedMempool
  tip : machine.stage.lastProcessed = chainTop genesis chain
  journal : Journal machine.stage.db machine.stage.rollbackBuffer ledger
  held : machine.stage.rollbackBuffer.points = ledger.map LedgerEntry.block
  layers : ∃ confirmed, Tracked chain confirmed ∧
    Layered machine.stage.processedMempool machine.stage.lastProcessed ledger confirmed
  mutable : machine.stage.rollbackBuffer.points ≠ [] → machine.worker.mutable = true
  size : 2 ≤ machine.stage.rollbackBuffer.size

section Steps

variable {names : Header → Point → Prop} {genesis : BlockHash} {machine : Machine}
variable {chain : List Point} {ledger : List LedgerEntry}

theorem Linked.height_top (linked : Linked names genesis chain) :
    (chainTop genesis chain).height.toNat = chain.length := by
  cases chain with
  | nil => rfl
  | cons point below => exact linked.1

theorem Linked.drop (count : Nat) (linked : Linked names genesis chain) :
    Linked names genesis (chain.drop count) := by
  induction count generalizing chain with
  | zero => exact linked
  | succ count ih =>
      cases chain with
      | nil => exact linked
      | cons point below => exact ih linked.2.2

theorem Linked.height_at (linked : Linked names genesis chain) {index : Nat} {point : Point}
    (listed : chain[index]? = some point) : point.height.toNat + index = chain.length := by
  have top := (linked.drop index).height_top
  have inside := (List.getElem?_eq_some_iff.mp listed).1
  rw [List.drop_eq_getElem_cons inside, (List.getElem?_eq_some_iff.mp listed).2] at top
  rw [chainTop, List.length_cons, List.length_drop] at top
  omega

theorem Linked.dropWhile {chain : List Point} {point : Point} {below : Nat}
    (linked : Linked names genesis chain) (top : chainTop genesis (chain.drop below) = point)
    (some : chain.drop below ≠ []) :
    chain.dropWhile (fun other => other ≠ point) = chain.drop below := by
  induction below generalizing chain with
  | zero =>
      cases chain with
      | nil => exact absurd rfl some
      | cons first rest =>
          obtain rfl : first = point := top
          rw [List.drop_zero, List.dropWhile_cons_of_neg (by simp)]
  | succ below ih =>
      cases chain with
      | nil => exact absurd List.drop_nil some
      | cons first rest =>
          have higher : first ≠ point := by
            rintro rfl
            have lower := (linked.2.2.drop below).height_top
            rw [List.drop_succ_cons] at top
            rw [top, linked.1, List.length_drop] at lower
            omega
          rw [List.drop_succ_cons] at top some ⊢
          rw [List.dropWhile_cons_of_pos (by simpa using higher)]
          exact ih linked.2.2 top some

/-- Hashes tell apart the headers that stand for points, and none of these has the hash of
genesis. -/
structure HashesTell (names : Header → Point → Prop) (genesis : BlockHash) : Prop where
  same : ∀ {first second point other}, names first point → names second other →
    point.hash = other.hash → first = second
  above : ∀ {header point}, names header point → point.height ≠ 0 → point.hash ≠ genesis

theorem Linked.not_genesis (linked : Linked names genesis chain) (tell : HashesTell names genesis)
    {point : Point} {below : List Point} (top : chain = point :: below) : point.hash ≠ genesis := by
  rw [top] at linked
  rcases linked.2.1 with ⟨header, named, _⟩
  apply tell.above named
  intro zero
  have height := linked.1
  rw [zero] at height
  exact absurd height (Nat.succ_ne_zero below.length).symm

theorem Linked.eq_of_hash {other : List Point} (tell : HashesTell names genesis)
    (one : Linked names genesis chain) (two : Linked names genesis other)
    (same : (chainTop genesis chain).hash = (chainTop genesis other).hash) : chain = other := by
  induction chain generalizing other with
  | nil =>
      cases other with
      | nil => rfl
      | cons point below => exact absurd same.symm (two.not_genesis tell rfl)
  | cons point below ih =>
      cases other with
      | nil => exact absurd same (one.not_genesis tell rfl)
      | cons second rest =>
          rcases one.2.1 with ⟨header, named, parent⟩
          rcases two.2.1 with ⟨header', named', parent'⟩
          have equal : header = header' := tell.same named named' same
          have rests : below = rest := by
            apply ih one.2.2 two.2.2
            rw [← parent, ← parent', equal]
          have heights : point.height = second.height := by
            apply BitVec.eq_of_toNat_eq
            rw [one.1, two.1, rests]
          have points : point = second := by
            cases point
            cases second
            exact congrArg₂ Point.mk heights same
          rw [points, rests]

theorem ChainInv.tip_low (inv : ChainInv names genesis machine chain ledger) :
    machine.stage.lastProcessed.height ≠ u64Max := by
  rw [inv.tip]
  cases chain with
  | nil =>
      intro same
      exact absurd (show (0 : U64) = u64Max from same) (by decide)
  | cons point below => exact inv.low point List.mem_cons_self

theorem ChainInv.rollback {now : U64} {accepted : Bool} {rbPoint : Point} {stage : Stage}
    (inv : ChainInv names genesis machine chain ledger)
    (success : machine.stage.rollbackToPoint now accepted rbPoint = .ok stage)
    (low : rbPoint.height ≠ u64Max) (increasing : Increasing stage.db.db.log) :
    ∃ below entry, chainTop genesis (chain.drop below) = rbPoint ∧ chain.drop below ≠ [] ∧
      stage.processedMempool = false ∧
      (confirmedEntries machine.stage.processedMempool ledger)[below]? = some entry ∧
      Agree IsData stage.db.db.view entry.view ∧
      ChainInv names genesis { machine with stage } (chain.drop below)
        ((confirmedEntries machine.stage.processedMempool ledger).drop below) := by
  rcases Stage.rollbackToPoint_ok success with ⟨index, db, found, wrote, rfl⟩
  have committed := StorageHandler.commit_committed wrote
  rcases RollbackBuffer.position_some found with ⟨block, lookup, target, _⟩
  rcases inv.journal.lookup lookup with ⟨entry, listed, rfl⟩
  rcases inv.layers with ⟨confirmed, tracked, layered⟩
  rcases layered.confirmed listed (by rw [target]; exact low) with ⟨below, inside, rest⟩
  rcases tracked.lookup inside with ⟨older, top, tables⟩
  have bound : index ≤ machine.stage.rollbackBuffer.points.length :=
    le_of_lt (List.getElem?_eq_some_iff.mp lookup).1
  have restored := inv.journal.undo bound listed committed increasing
  have head : chainTop genesis (chain.drop below) = rbPoint := by
    rw [top, chainTop, target]
  rw [layered.entries]
  refine ⟨below, entry, head, by rw [top]; simp, rfl, inside, restored, ?_⟩
  rw [← rest]
  constructor
  · exact inv.linked.drop below
  · intro point member
    exact inv.low point (List.mem_of_mem_drop member)
  · exact tables.of_agree restored
  · exact head.symm
  · exact inv.journal.rollback bound listed committed increasing
  · simp only [inv.held, List.map_drop]
  · exact ⟨confirmed.drop below, tracked.drop below, rest⟩
  · intro some
    apply inv.mutable
    intro none
    rw [none] at some
    exact some (List.drop_nil)
  · exact inv.size

theorem view_applied {handler after : StorageHandler} {now : U64} {accepted : Bool}
    {task : FinalizedTask} {point : Point} {maxRollback : U64} {mempoolTimestamp : Option U64}
    (applied : handler.applyIndexingTask now accepted task point maxRollback mempoolTimestamp =
      .ok after) (increasing : Increasing after.db.log) (key : RawKey) (data : IsData key) :
    after.db.view key =
      (task.writeBuffer.lookup key).elim (handler.db.view key)
        (fun action => action.apply (handler.db.view key)) := by
  rw [(StorageHandler.applyIndexingTask_committed applied).view increasing key,
    FinalizedTask.replay_batch _ _ _ _ _ _ _ data]

theorem ChainTables.forward {handler after : StorageHandler} {now : U64} {accepted mutable : Bool}
    {indexers : List Indexer} {point : Point} {txs : BlockTxs} {network : Network}
    {cache cache' : Option UtxoCache} {final : FinalizedTask} {maxRollback : U64}
    (tables : ChainTables handler.db.view chain false)
    (indexed : indexBlock indexers (handler.beginIndexingTask mutable) point txs network cache =
      (cache', .ok final))
    (applied : handler.applyIndexingTask now accepted final point maxRollback none = .ok after)
    (increasing : Increasing after.db.log) :
    ChainTables after.db.view (point :: chain) false := by
  have lookup := indexBlock_lookup indexed rfl
  constructor
  · intro key held
    rw [view_applied applied increasing key (isData_hash held), lookup key (not_isTxKey_hash held),
      if_neg (info_ne_of_hash held), hashAt_cons, tables.hashes key held]
    split
    · rfl
    · rfl
  · refine Or.inr ⟨point, chain, ⟨point.height, point.hash, false⟩, rfl, ?_, rfl, rfl, ?_⟩
    · have other : IndexerInfoKV.encodeKey () ≠ HashByHeightKV.encodeKey point.height :=
        (info_ne_of_hash (Table.holds_encodeKey _ _)).symm
      rw [view_applied applied increasing _ isData_info, lookup _ not_isTxKey_info, if_neg other,
        if_pos rfl]
      rfl
    · intro _
      rfl

theorem ChainTables.snapshot {handler after : StorageHandler} {now : U64} {accepted : Bool}
    {indexers : List Indexer} {tip point : Point} {blocks : List BlockTxs} {network : Network}
    {cache cache' : Option UtxoCache} {final : FinalizedTask} {maxRollback : U64}
    {timestamp : Option U64} {below : List Point}
    (tables : ChainTables handler.db.view (tip :: below) false) (nonempty : blocks ≠ [])
    (indexed : indexMempool indexers handler.beginMempoolIndexingTask tip blocks network cache =
      (cache', .ok final))
    (applied : handler.applyIndexingTask now accepted final point maxRollback timestamp =
      .ok after)
    (increasing : Increasing after.db.log) :
    ChainTables after.db.view (tip :: below) true := by
  rcases indexMempool_lookup nonempty indexed rfl with ⟨height, lookup⟩
  constructor
  · intro key held
    rw [view_applied applied increasing key (isData_hash held), lookup key (not_isTxKey_hash held),
      if_neg (info_ne_of_hash held)]
    exact tables.hashes key held
  · refine Or.inr ⟨tip, below, ⟨height, tip.hash, true⟩, rfl, ?_, rfl, rfl, ?_⟩
    · rw [view_applied applied increasing _ isData_info, lookup _ not_isTxKey_info, if_pos rfl]
      rfl
    · intro impossible
      cases impossible

theorem ChainInv.failed (inv : ChainInv names genesis machine chain ledger)
    (mutable : Bool) (cache : Option UtxoCache)
    (rises : machine.worker.mutable = true → mutable = true) :
    ChainInv names genesis
      ⟨{ machine.worker with mutable }, { machine.stage with utxoCache := cache }⟩ chain ledger :=
  ⟨inv.linked, inv.low, inv.tables, inv.tip, inv.journal, inv.held, inv.layers,
    by intro some; exact rises (inv.mutable some), inv.size⟩

theorem mutableAt_rises (machine : Machine) (point tip : Point)
    (already : machine.worker.mutable = true) : machine.mutableAt point tip = true := by
  rw [Machine.mutableAt, already, Bool.true_or]

theorem Journal.pushed {handler : StorageHandler} {buffer : RollbackBuffer} {point : Point}
    {kvs : HashMap RawKey PreviousValue} {entry : LedgerEntry}
    (journal : Journal handler (buffer.addBlock point kvs) (entry :: ledger))
    (size : 0 < buffer.size) :
    ∃ count, Journal handler (buffer.addBlock point kvs) (entry :: ledger.take count) ∧
      (buffer.addBlock point kvs).points = (entry :: ledger.take count).map LedgerEntry.block := by
  have positive : 0 < (buffer.addBlock point kvs).points.length := by
    simp only [RollbackBuffer.addBlock, List.length_take, List.length_cons]
    omega
  rcases Nat.exists_eq_succ_of_ne_zero (Nat.pos_iff_ne_zero.mp positive) with ⟨count, length⟩
  have trimmed := journal.trim
  rw [length, List.take_succ_cons] at trimmed
  exact ⟨count, trimmed⟩

theorem ChainInv.linked_next {point : Point} {header : Header}
    (inv : ChainInv names genesis machine chain ledger)
    (height : point.height = machine.stage.lastProcessed.height + 1)
    (parent : header.prevBlockhash = machine.stage.lastProcessed.hash) (hash : names header point) :
    Linked names genesis (point :: chain) := by
  refine ⟨?_, ⟨header, hash, ?_⟩, inv.linked⟩
  · have room : machine.stage.lastProcessed.height.toNat ≠ 2 ^ 64 - 1 := by
      intro full
      apply inv.tip_low
      apply BitVec.eq_of_toNat_eq
      rw [full, u64Max, BitVec.toNat_allOnes]
    have bound := machine.stage.lastProcessed.height.isLt
    have top := inv.linked.height_top
    rw [← inv.tip] at top
    rw [height, BitVec.toNat_add, ← top, show (1 : U64).toNat = 1 from rfl]
    omega
  · rw [parent, inv.tip]

theorem ChainInv.low_next {point : Point} (inv : ChainInv names genesis machine chain ledger)
    (low : point.height ≠ u64Max) : ∀ entry ∈ point :: chain, entry.height ≠ u64Max := by
  intro entry member
  rcases List.mem_cons.mp member with rfl | old
  · exact low
  · exact inv.low entry old

/-- A block whose originals are kept has a new entry on top of the ledger. -/
theorem ChainInv.forward_kept {cache : Option UtxoCache} {db : StorageHandler} {point : Point}
    {kvs : HashMap RawKey PreviousValue} (inv : ChainInv names genesis machine chain ledger)
    (undone : machine.stage.processedMempool = false) (linked : Linked names genesis (point :: chain))
    (low : ∀ entry ∈ point :: chain, entry.height ≠ u64Max)
    (tables : ChainTables db.db.view (point :: chain) false)
    (journal : Journal db (machine.stage.rollbackBuffer.addBlock point kvs)
      (⟨⟨point, kvs⟩, db.db.view, []⟩ :: ledger)) :
    ∃ ledger', Grown db.db.view ledger ledger' ∧ ChainInv names genesis
      ⟨{ machine.worker with mutable := true }, { machine.stage with
        utxoCache := cache
        db
        lastProcessed := point
        rollbackBuffer := machine.stage.rollbackBuffer.addBlock point kvs }⟩
      (point :: chain) ledger' := by
  rcases journal.pushed (lt_of_lt_of_le Nat.two_pos inv.size) with ⟨count, pushed, held⟩
  rcases inv.layers with ⟨confirmed, tracked, layered⟩
  rw [undone] at layered
  obtain rfl : ledger = confirmed := layered
  refine ⟨⟨⟨point, kvs⟩, db.db.view, []⟩ :: ledger.take count, grown_cons count rfl, linked, low,
    by rw [undone]; exact tables, rfl, pushed, held, ?_, fun _ => rfl, inv.size⟩
  refine ⟨⟨⟨point, kvs⟩, db.db.view, []⟩ :: ledger.take count, ⟨rfl, tables, tracked.take count⟩, ?_⟩
  rw [undone]
  rfl

/-- A block without originals is indexed on an empty buffer, which stays empty. -/
theorem ChainInv.forward_unkept {cache : Option UtxoCache} {db : StorageHandler} {point : Point}
    (inv : ChainInv names genesis machine chain ledger)
    (undone : machine.stage.processedMempool = false) (linked : Linked names genesis (point :: chain))
    (low : ∀ entry ∈ point :: chain, entry.height ≠ u64Max)
    (tables : ChainTables db.db.view (point :: chain) false)
    (empty : machine.stage.rollbackBuffer.points = []) (current : db.Current) :
    ∃ ledger', Grown db.db.view ledger ledger' ∧ ChainInv names genesis
      ⟨{ machine.worker with mutable := false }, { machine.stage with
        utxoCache := cache
        db
        lastProcessed := point }⟩ (point :: chain) ledger' := by
  refine ⟨[], by simp [Grown], linked, low, by rw [undone]; exact tables, rfl,
    Journal.nil empty current, empty, ⟨[], trivial, ?_⟩, fun some => absurd empty some, inv.size⟩
  rw [undone]
  rfl

/-- A confirmed block that extends the tip extends the chain. -/
theorem ChainInv.forward {env : Env} {point tip : Point} {header : Header} {txs : BlockTxs}
    {cache : Option UtxoCache} {final : FinalizedTask} {db : StorageHandler}
    (inv : ChainInv names genesis machine chain ledger)
    (undone : machine.stage.processedMempool = false)
    (height : point.height = machine.stage.lastProcessed.height + 1)
    (parent : header.prevBlockhash = machine.stage.lastProcessed.hash)
    (hash : names header point) (low : point.height ≠ u64Max)
    (indexed : indexBlock machine.worker.indexers
      (machine.stage.db.beginIndexingTask (machine.mutableAt point tip)) point txs
      machine.stage.network (machine.liveCache env) = (cache, .ok final))
    (applied : machine.stage.db.applyIndexingTask env.commitNow env.commitAccepted final point
      machine.stage.maxRollbacks none = .ok db)
    (increasing : Increasing db.db.log) :
    ∃ ledger', Grown db.db.view ledger ledger' ∧ ChainInv names genesis
      ⟨{ machine.worker with mutable := machine.mutableAt point tip }, { machine.stage with
        utxoCache := cache
        db
        lastProcessed := point
        rollbackBuffer := final.originalKvs.elim machine.stage.rollbackBuffer
          (machine.stage.rollbackBuffer.addBlock point) }⟩ (point :: chain) ledger' := by
  have tables : ChainTables db.db.view (point :: chain) false := by
    apply ChainTables.forward _ indexed applied increasing
    rw [← undone]
    exact inv.tables
  have linked := inv.linked_next height parent hash
  have lows := inv.low_next low
  rcases indexBlock_written indexed with ⟨after, written, rfl⟩
  cases mutable : machine.mutableAt point tip with
  | true =>
      rw [mutable] at written
      rcases written.tracks machine.stage.db.tracks_beginIndexingTask with ⟨kvs, tracks⟩
      have originals : after.finalize.originalKvs = some kvs := tracks.originals
      have journal := inv.journal.commitTask machine.stage.db.tracks_beginIndexingTask rfl rfl
        written originals applied increasing point []
      rw [originals]
      exact inv.forward_kept undone linked lows tables journal
  | false =>
      rw [mutable] at written
      have originals : after.finalize.originalKvs = none := by
        have tracking := written.sameSource.tracking
        cases stored : after.originalKvs with
        | none => exact stored
        | some kvs =>
            rw [stored] at tracking
            cases tracking
      have empty : machine.stage.rollbackBuffer.points = [] := by
        by_contra some
        rw [mutableAt_rises machine point tip (inv.mutable some)] at mutable
        cases mutable
      have current := (StorageHandler.applyIndexingTask_committed applied).current increasing
      rw [originals]
      exact inv.forward_unkept undone linked lows tables empty current

theorem ChainInv.snapshot {env : Env} {timestamp : U64} {blocks : List BlockTxs}
    {cache : Option UtxoCache} {final : FinalizedTask} {db : StorageHandler} {pseudo : Point}
    (inv : ChainInv names genesis machine chain ledger)
    (undone : machine.stage.processedMempool = false)
    (holds : machine.stage.rollbackBuffer.points ≠ []) (nonempty : blocks ≠ [])
    (indexed : indexMempool machine.worker.indexers machine.stage.db.beginMempoolIndexingTask
      machine.stage.lastProcessed blocks machine.stage.network (machine.liveCache env) =
        (cache, .ok final))
    (applied : machine.stage.db.applyIndexingTask env.commitNow env.commitAccepted final pseudo
      machine.stage.maxRollbacks (some timestamp) = .ok db)
    (increasing : Increasing db.db.log) :
    ∃ ledger', Grown db.db.view ledger ledger' ∧ ChainInv names genesis
      { machine with stage := { machine.stage with
        utxoCache := cache
        db
        processedMempool := true
        rollbackBuffer := final.originalKvs.elim machine.stage.rollbackBuffer
          (machine.stage.rollbackBuffer.addBlock
            (Machine.mempoolPoint machine.stage.lastProcessed)) } } chain ledger' := by
  rcases inv.layers with ⟨confirmed, tracked, layered⟩
  rw [undone] at layered
  obtain rfl : ledger = confirmed := layered
  have tables : ChainTables db.db.view chain true := by
    cases chain with
    | nil =>
        cases ledger with
        | nil => exact absurd inv.held holds
        | cons entry rest => cases tracked
    | cons point below =>
        have tip : machine.stage.lastProcessed = point := inv.tip
        rw [tip] at indexed
        have before := inv.tables
        rw [undone] at before
        exact before.snapshot nonempty indexed applied increasing
  rcases indexMempool_written nonempty indexed with ⟨after, written, rfl⟩
  rcases written.tracks machine.stage.db.tracks_beginMempoolIndexingTask with ⟨kvs, tracks⟩
  have originals : after.finalize.originalKvs = some kvs := tracks.originals
  have journal := inv.journal.commitTask machine.stage.db.tracks_beginMempoolIndexingTask rfl rfl
    written originals applied increasing (Machine.mempoolPoint machine.stage.lastProcessed) []
  rcases journal.pushed (lt_of_lt_of_le Nat.two_pos inv.size) with ⟨count, pushed, held⟩
  refine ⟨⟨⟨Machine.mempoolPoint machine.stage.lastProcessed, kvs⟩, db.db.view, []⟩ ::
    ledger.take count, grown_cons count rfl, inv.linked, inv.low, tables, inv.tip, ?_, ?_, ?_, ?_, ?_⟩
  · rw [originals]
    exact pushed
  · rw [originals]
    exact held
  · exact ⟨ledger.take count, tracked.take count, _, rfl, rfl⟩
  · intro _
    exact inv.mutable holds
  · rw [originals]
    exact inv.size

theorem ChainInv.idle_of_front (inv : ChainInv names genesis machine chain ledger)
    (front : machine.stage.rollbackBuffer.position machine.stage.lastProcessed = some 0) :
    machine.stage.processedMempool = false := by
  rcases RollbackBuffer.position_some front with ⟨block, lookup, target, _⟩
  rcases inv.journal.lookup lookup with ⟨entry, listed, rfl⟩
  rcases inv.layers with ⟨confirmed, _, layered⟩
  cases mempool : machine.stage.processedMempool with
  | false => rfl
  | true =>
      rw [mempool] at layered
      rcases layered with ⟨first, pseudo, rfl⟩
      obtain rfl : first = entry := by simpa using listed
      rw [target] at pseudo
      exact absurd (congrArg Point.height pseudo) inv.tip_low

end Steps

def ChainEvent.Valid (names : Header → Point → Prop) : ChainEvent → Prop
  | .rollForward point header _ _ => names header point ∧ point.height ≠ u64Max
  | .rollBack point => point.height ≠ u64Max
  | .mempoolBlocks _ blocks => blocks ≠ []

instance (names : Header → Point → Prop) [∀ header, DecidablePred (names header)]
    (event : ChainEvent) :
    Decidable (event.Valid names) :=
  match event with
  | .rollForward .. => inferInstanceAs (Decidable (_ ∧ _))
  | .rollBack .. => inferInstanceAs (Decidable (_ ≠ _))
  | .mempoolBlocks .. => inferInstanceAs (Decidable (_ ≠ _))

/-- After every commit the core tables describe a linked chain. -/
def Sound (names : Header → Point → Prop) (genesis : BlockHash)
    (log : List (Commit RocksTs WriteOp)) : Prop :=
  ∀ front, front <+: log → ∃ chain mempool, Linked names genesis chain ∧
    ChainTables (DB.view ⟨front, 0⟩) chain mempool

section Run

variable {names : Header → Point → Prop} {genesis : BlockHash} {machine : Machine}
variable {chain : List Point} {ledger : List LedgerEntry}

theorem Sound.snoc {log grown : List (Commit RocksTs WriteOp)} {commit : Commit RocksTs WriteOp}
    {mempool : Bool} (sound : Sound names genesis log) (step : grown = log ++ [commit])
    (linked : Linked names genesis chain)
    (tables : ChainTables (DB.view ⟨grown, 0⟩) chain mempool) :
    Sound names genesis grown := by
  intro front inside
  rw [step] at inside tables
  rcases List.prefix_concat_iff.mp inside with whole | shorter
  · rw [whole]
    exact ⟨chain, mempool, linked, tables⟩
  · exact sound front shorter

end Run

/-- What one commit makes of the chain. -/
def ChainStep (before after : List Point) : Prop :=
  (∃ point, after = point :: before) ∨ ∃ count, after = before.drop count

theorem chainStep_same (chain : List Point) : ChainStep chain chain := Or.inr ⟨0, rfl⟩

/-- What a call keeps: a property that comes with the chain invariant holds up to the last
commit of the call, another one after it. -/
structure Kept (names : Header → Point → Prop) (genesis : BlockHash) (Good After : Machine → Prop) :
    Prop where
  inv : ∀ {machine}, Good machine → ∃ chain ledger, ChainInv names genesis machine chain ledger
  after : ∀ {machine}, Good machine → After machine
  rollback : ∀ {machine : Machine} {now accepted rbPoint stage}, Good machine →
    machine.stage.rollbackToPoint now accepted rbPoint = .ok stage → rbPoint.height ≠ u64Max →
    Increasing stage.db.db.log → Good { machine with stage }
  failed : ∀ {machine : Machine} (mutable : Bool) (cache : Option UtxoCache), Good machine →
    (machine.worker.mutable = true → mutable = true) →
    After ⟨{ machine.worker with mutable }, { machine.stage with utxoCache := cache }⟩
  forward : ∀ {machine : Machine} {env : Env} {point tip : Point} {header : Header} {txs : BlockTxs}
    {cache : Option UtxoCache} {final : FinalizedTask} {db : StorageHandler},
    Good machine → machine.stage.processedMempool = false →
    point.height = machine.stage.lastProcessed.height + 1 →
    header.prevBlockhash = machine.stage.lastProcessed.hash → names header point →
    point.height ≠ u64Max →
    indexBlock machine.worker.indexers
      (machine.stage.db.beginIndexingTask (machine.mutableAt point tip)) point txs
      machine.stage.network (machine.liveCache env) = (cache, .ok final) →
    machine.stage.db.applyIndexingTask env.commitNow env.commitAccepted final point
      machine.stage.maxRollbacks none = .ok db →
    Increasing db.db.log →
    After ⟨{ machine.worker with mutable := machine.mutableAt point tip }, { machine.stage with
      utxoCache := cache
      db
      lastProcessed := point
      rollbackBuffer := final.originalKvs.elim machine.stage.rollbackBuffer
        (machine.stage.rollbackBuffer.addBlock point) }⟩
  snapshot : ∀ {machine : Machine} {env : Env} {timestamp : U64} {blocks : List BlockTxs}
    {cache : Option UtxoCache} {final : FinalizedTask} {db : StorageHandler},
    Good machine → machine.stage.processedMempool = false →
    machine.stage.rollbackBuffer.points ≠ [] → blocks ≠ [] →
    indexMempool machine.worker.indexers machine.stage.db.beginMempoolIndexingTask
      machine.stage.lastProcessed blocks machine.stage.network (machine.liveCache env) =
        (cache, .ok final) →
    machine.stage.db.applyIndexingTask env.commitNow env.commitAccepted final
      ⟨machine.stage.lastProcessed.height + BitVec.ofNat 64 blocks.length,
        machine.stage.lastProcessed.hash⟩ machine.stage.maxRollbacks (some timestamp) = .ok db →
    Increasing db.db.log →
    After { machine with stage := { machine.stage with
      utxoCache := cache
      db
      processedMempool := true
      rollbackBuffer := final.originalKvs.elim machine.stage.rollbackBuffer
        (machine.stage.rollbackBuffer.addBlock (Machine.mempoolPoint machine.stage.lastProcessed)) } }

namespace Kept

variable {names : Header → Point → Prop} {genesis : BlockHash} {Good After : Machine → Prop}
variable {machine : Machine}

theorem tip_low (kept : Kept names genesis Good After) (good : Good machine) :
    machine.stage.lastProcessed.height ≠ u64Max := by
  rcases kept.inv good with ⟨chain, ledger, inv⟩
  exact inv.tip_low

theorem undoMempool (kept : Kept names genesis Good After) {env : Env} {stage : Stage}
    (good : Good machine) (success : Machine.undoMempool machine.stage env = .ok stage)
    (increasing : Increasing stage.db.db.log) :
    stage.processedMempool = false ∧ Good { machine with stage } := by
  rcases Machine.undoMempool_cases success with ⟨idle, rfl⟩ | ⟨_, undone⟩
  · exact ⟨idle, good⟩
  · exact ⟨Stage.rollbackToPoint_idle undone,
      kept.rollback good undone (kept.tip_low good) increasing⟩

theorem undoSnapshot (kept : Kept names genesis Good After) {env : Env} {stage : Stage}
    (good : Good machine) (success : Machine.undoSnapshot machine.stage env = .ok stage)
    (increasing : Increasing stage.db.db.log) :
    stage.processedMempool = false ∧ stage.rollbackBuffer.points ≠ [] ∧ Good { machine with stage } := by
  rcases Machine.undoSnapshot_cases success with ⟨front, rfl⟩ | undone
  · rcases kept.inv good with ⟨chain, ledger, inv⟩
    refine ⟨inv.idle_of_front front, ?_, good⟩
    intro none
    rw [RollbackBuffer.position, none] at front
    cases front
  · exact ⟨Stage.rollbackToPoint_idle undone, Stage.rollbackToPoint_points undone,
      kept.rollback good undone (kept.tip_low good) increasing⟩

theorem execute (kept : Kept names genesis Good After) {env : Env} {event : ChainEvent}
    (good : Good machine) (valid : event.Valid names)
    (increasing : Increasing (machine.execute env event).1.stage.db.db.log) :
    After (machine.execute env event).1 := by
  have call := machine.execute_call env event
  generalize machine.execute env event = outcome at call increasing ⊢
  cases call with
  | refused => exact kept.after good
  | stopped undone below => exact kept.after (kept.undoMempool good undone increasing).2
  | unindexed undone =>
      exact kept.failed _ _ (kept.undoMempool good undone increasing).2 (mutableAt_rises _ _ _)
  | indexed undone height parent indexing applied =>
      have between := (StorageHandler.applyIndexingTask_committed applied).increasing increasing
      rcases kept.undoMempool good undone between with ⟨idle, clean⟩
      exact kept.forward clean idle height parent valid.1 valid.2 indexing applied increasing
  | rolledBack undone => exact kept.after (kept.rollback good undone valid increasing)
  | skipped undone other => exact kept.after (kept.undoSnapshot good undone increasing).2.2
  | unsnapshotted undone =>
      exact kept.failed machine.worker.mutable _ (kept.undoSnapshot good undone increasing).2.2 id
  | snapshotted undone same indexing applied =>
      have between := (StorageHandler.applyIndexingTask_committed applied).increasing increasing
      rcases kept.undoSnapshot good undone between with ⟨idle, holds, clean⟩
      exact kept.snapshot clean idle holds valid indexing applied increasing

theorem run (kept : Kept names genesis Good Good) (good : Good machine)
    (events : List (Env × ChainEvent)) (valid : ∀ event ∈ events, event.2.Valid names)
    (increasing : Increasing (machine.run events).stage.db.db.log) : Good (machine.run events) := by
  induction events using List.reverseRecOn with
  | nil => exact good
  | append_singleton events event ih =>
      rcases event with ⟨env, event⟩
      rw [Machine.run_snoc] at increasing ⊢
      have earlier : Increasing (machine.run events).stage.db.db.log :=
        VersionedLog.increasing_prefix ((machine.run events).execute_log env event) increasing
      have before := ih (by
        intro other member
        exact valid other (List.mem_append_left _ member)) earlier
      exact kept.execute before (valid (env, event) (by simp)) increasing

end Kept

/-- A property of the commits so far and the chain they have led to. -/
def Along (names : Header → Point → Prop) (genesis : BlockHash)
    (Good : List (Commit RocksTs WriteOp) → List Point → Prop) (machine : Machine) : Prop :=
  ∃ chain ledger, ChainInv names genesis machine chain ledger ∧ Good machine.stage.db.db.log chain

/-- Every call keeps what each commit keeps. -/
theorem kept_along {names : Header → Point → Prop} {genesis : BlockHash}
    {Good : List (Commit RocksTs WriteOp) → List Point → Prop}
    (step : ∀ {machine log commit chain chain' ledger}, Good log chain →
      machine.stage.db.db.log = log ++ [commit] → ChainInv names genesis machine chain' ledger →
        ChainStep chain chain' → Good machine.stage.db.db.log chain') :
    Kept names genesis (Along names genesis Good) (Along names genesis Good) where
  inv := by
    intro machine ⟨chain, ledger, inv, _⟩
    exact ⟨chain, ledger, inv⟩
  after := id
  rollback := by
    intro machine now accepted rbPoint stage ⟨chain, ledger, inv, good⟩ success low increasing
    rcases inv.rollback success low increasing with ⟨below, _, _, _, _, _, _, rolled⟩
    rcases Stage.rollbackToPoint_log success with ⟨commit, log⟩
    exact ⟨_, _, rolled, step good log rolled (Or.inr ⟨below, rfl⟩)⟩
  failed := by
    intro machine mutable cache ⟨chain, ledger, inv, good⟩ rises
    exact ⟨chain, ledger, inv.failed mutable cache rises, good⟩
  forward := by
    intro machine env point tip header txs cache final db ⟨chain, ledger, inv, good⟩ undone height
      parent hash low indexed applied increasing
    rcases inv.forward undone height parent hash low indexed applied increasing with
      ⟨ledger', _, extended⟩
    have log := (StorageHandler.applyIndexingTask_committed applied).log
    exact ⟨_, ledger', extended, step good log extended (Or.inl ⟨point, rfl⟩)⟩
  snapshot := by
    intro machine env timestamp blocks cache final db ⟨chain, ledger, inv, good⟩ undone holds
      nonempty indexed applied increasing
    rcases inv.snapshot undone holds nonempty indexed applied increasing with
      ⟨ledger', _, extended⟩
    have log := (StorageHandler.applyIndexingTask_committed applied).log
    exact ⟨_, ledger', extended, step good log extended (chainStep_same chain)⟩

/-- What holds between two calls. -/
def Coherent (names : Header → Point → Prop) (genesis : BlockHash) : Machine → Prop :=
  Along names genesis (fun log _ => Sound names genesis log)

theorem Coherent.inv {names : Header → Point → Prop} {genesis : BlockHash} {machine : Machine}
    (coherent : Coherent names genesis machine) :
    ∃ chain ledger, ChainInv names genesis machine chain ledger := by
  rcases coherent with ⟨chain, ledger, inv, _⟩
  exact ⟨chain, ledger, inv⟩

theorem Coherent.sound {names : Header → Point → Prop} {genesis : BlockHash} {machine : Machine}
    (coherent : Coherent names genesis machine) : Sound names genesis machine.stage.db.db.log := by
  rcases coherent with ⟨_, _, _, sound⟩
  exact sound

theorem kept_coherent (names : Header → Point → Prop) (genesis : BlockHash) :
    Kept names genesis (Coherent names genesis) (Coherent names genesis) :=
  kept_along (fun sound log extended _ => sound.snoc log extended.linked extended.tables)

def Stage.empty (config : Config) : Stage where
  db := StorageHandler.openDb DB.empty
  network := config.network
  rollbackBuffer := RollbackBuffer.new config.maxRollbacks (config.safeMode.getD false)
  maxRollbacks := BitVec.ofNat 64 config.maxRollbacks
  lastProcessed := Point.genesis config
  processedMempool := false
  utxoCache := if config.utxoCache then some ∅ else none

theorem Stage.new_empty (config : Config) :
    Stage.new config (StorageHandler.openDb DB.empty) = .ok (Stage.empty config) := rfl

theorem coherent_bootstrap (names : Header → Point → Prop) (config : Config)
    (indexers : List Indexer) (stage : Stage)
    (fresh : Stage.new config (StorageHandler.openDb DB.empty) = .ok stage) :
    Coherent names config.genesisHash (Machine.bootstrap indexers stage) := by
  rw [Stage.new_empty, Except.ok.injEq] at fresh
  subst fresh
  refine ⟨[], [], ?_, ?_⟩
  · refine ⟨trivial, by simp, chainTables_empty, rfl, ?_, rfl, ⟨[], trivial, rfl⟩, ?_, ?_⟩
    · apply Journal.nil rfl
      intro previous found
      cases found
    · intro some
      exact absurd rfl some
    · exact Nat.le_add_left 2 _
  · intro front inside
    rw [List.prefix_nil.mp inside]
    exact ⟨[], false, trivial, chainTables_empty⟩

theorem Tracked.points {chain : List Point} {ledger : List LedgerEntry}
    (tracked : Tracked chain ledger) :
    ledger.map (fun entry => entry.block.point) = chain.take ledger.length := by
  induction ledger generalizing chain with
  | nil => simp
  | cons entry rest ih =>
      cases chain with
      | nil => cases tracked
      | cons point below =>
          rw [List.map_cons, tracked.1, ih tracked.2.2, List.length_cons, List.take_succ_cons]

def Stage.pseudo (stage : Stage) : List Point :=
  if stage.processedMempool then [Machine.mempoolPoint stage.lastProcessed] else []

def Stage.kept (stage : Stage) : Nat := stage.rollbackBuffer.points.length - stage.pseudo.length

theorem ChainInv.points {names : Header → Point → Prop} {genesis : BlockHash} {machine : Machine}
    {chain : List Point} {ledger : List LedgerEntry}
    (inv : ChainInv names genesis machine chain ledger) :
    machine.stage.rollbackBuffer.points.map PointWithOriginalKVs.point =
      machine.stage.pseudo ++ chain.take machine.stage.kept := by
  rcases inv.layers with ⟨confirmed, tracked, layered⟩
  have length : machine.stage.rollbackBuffer.points.length = ledger.length := by
    rw [inv.held, List.length_map]
  have listed : machine.stage.rollbackBuffer.points.map PointWithOriginalKVs.point =
      ledger.map (fun entry => entry.block.point) := by
    rw [inv.held, List.map_map]
    rfl
  rw [listed, Stage.kept, length]
  cases mempool : machine.stage.processedMempool with
  | false =>
      rw [mempool] at layered
      obtain rfl : ledger = confirmed := layered
      simp [Stage.pseudo, mempool, tracked.points]
  | true =>
      rw [mempool] at layered
      rcases layered with ⟨entry, first, rfl⟩
      simp [Stage.pseudo, mempool, first, tracked.points]

def HashedBy (blockHash : Header → BlockHash) (header : Header) (point : Point) : Prop :=
  point.hash = blockHash header

instance (blockHash : Header → BlockHash) (header : Header) :
    DecidablePred (HashedBy blockHash header) :=
  fun point => inferInstanceAs (Decidable (point.hash = blockHash header))

/-- After every commit of a run the core tables describe a linked chain; after every call the
stage stands at its top, knows whether a snapshot is indexed, and buffers its newest points
below at most one pseudo point. -/
theorem chain_invariant (blockHash : Header → BlockHash) (config : Config)
    (indexers : List Indexer) (stage : Stage) (events : List (Env × ChainEvent))
    (fresh : Stage.new config (StorageHandler.openDb DB.empty) = .ok stage)
    (valid : ∀ event ∈ events, event.2.Valid (HashedBy blockHash))
    (increasing : Increasing ((Machine.bootstrap indexers stage).run events).stage.db.db.log) :
    let last := ((Machine.bootstrap indexers stage).run events).stage
    Sound (HashedBy blockHash) config.genesisHash last.db.db.log ∧
      ∃ chain count, Linked (HashedBy blockHash) config.genesisHash chain ∧
        ChainTables last.db.db.view chain last.processedMempool ∧
        last.lastProcessed = chainTop config.genesisHash chain ∧
        last.rollbackBuffer.points.map PointWithOriginalKVs.point =
          (if last.processedMempool then [Machine.mempoolPoint last.lastProcessed] else []) ++
            chain.take count := by
  intro last
  have coherent := (kept_coherent (HashedBy blockHash) config.genesisHash).run
    (coherent_bootstrap _ config indexers stage fresh) events valid increasing
  refine ⟨coherent.sound, ?_⟩
  rcases coherent.inv with ⟨chain, ledger, inv⟩
  exact ⟨chain, last.kept, inv.linked, inv.tables, inv.tip, inv.points⟩

def mainnetGenesis : BlockHash :=
  ⟨[111, 226, 140, 10, 182, 241, 179, 114, 193, 166, 162, 70, 174, 99, 247, 79, 147, 30, 131, 101,
    225, 90, 8, 156, 104, 214, 25, 0, 0, 0, 0, 0], rfl⟩

def mainnetBlockOne : BlockHash :=
  ⟨[72, 96, 235, 24, 191, 27, 22, 32, 227, 126, 148, 144, 252, 138, 66, 117, 20, 65, 111, 215, 81,
    89, 171, 134, 104, 142, 154, 131, 0, 0, 0, 0], rfl⟩

def mainnetHeaderOne : Header :=
  ⟨mainnetGenesis, [1, 0, 0, 0, 152, 32, 81, 253, 30, 75, 167, 68, 187, 190, 104, 14, 31, 238, 20,
    103, 123, 161, 163, 195, 84, 11, 247, 177, 205, 182, 6, 232, 87, 35, 62, 14, 97, 188, 102, 73,
    255, 255, 0, 29, 1, 227, 98, 153]⟩

def mainnetHash (header : Header) : BlockHash :=
  if header = mainnetHeaderOne then mainnetBlockOne else zeroHash

def mainnetConfig (maxRollback : Nat) : Config :=
  ⟨.mainnet, mainnetGenesis, some maxRollback, none, false⟩

def acceptAt (now : U64) : Env := ⟨now, true, now + 1, true, fun _ => true⟩

/-- Block one, a mempool snapshot on top of it, block one again and a rollback to it. -/
def blockOneEvents : List (Env × ChainEvent) :=
  let point : Point := ⟨1, mainnetBlockOne⟩
  [(acceptAt 5, .rollForward point mainnetHeaderOne [] point),
    (acceptAt 7, .mempoolBlocks ⟨0, mainnetBlockOne⟩ [[]]),
    (acceptAt 9, .rollForward point mainnetHeaderOne [] point),
    (acceptAt 11, .rollBack point)]

theorem chain_invariant_block_one :
    ∃ stage, Stage.new (mainnetConfig 2) (StorageHandler.openDb DB.empty) = .ok stage ∧
      let last := ((Machine.bootstrap [] stage).run blockOneEvents).stage
      Sound (HashedBy mainnetHash) mainnetGenesis last.db.db.log ∧
        ∃ chain count, Linked (HashedBy mainnetHash) mainnetGenesis chain ∧
          ChainTables last.db.db.view chain last.processedMempool ∧
          last.lastProcessed = chainTop mainnetGenesis chain ∧
          last.rollbackBuffer.points.map PointWithOriginalKVs.point =
            (if last.processedMempool then [Machine.mempoolPoint last.lastProcessed] else []) ++
              chain.take count :=
  ⟨_, Stage.new_empty (mainnetConfig 2), chain_invariant mainnetHash (mainnetConfig 2) [] _
    blockOneEvents (Stage.new_empty (mainnetConfig 2)) (by decide +kernel) (by decide +kernel)⟩

end Symphony
