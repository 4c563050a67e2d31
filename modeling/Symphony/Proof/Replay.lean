import Symphony.Proof.History
import Symphony.Sync.Determinism

/-! The latest view is determined by the blocks that were indexed.

Two runs that have indexed the same confirmed blocks, and the same snapshot on top of them, show
the same data, whatever else they went through. -/

namespace Symphony

open Encdec
open UndoLog (Agree)
open VersionedLog (Increasing)

section Commits

variable {indexers : List Indexer} {network : Network}
variable {handler handler' after after' : StorageHandler}

theorem agree_applied {task task' : FinalizedTask} {now now' : U64} {accepted accepted' : Bool}
    {point point' : Point} {maxRollback maxRollback' : U64} {timestamp timestamp' : Option U64}
    (agree : Agree IsData handler'.db.view handler.db.view)
    (same : task'.writeBuffer = task.writeBuffer)
    (applied : handler.applyIndexingTask now accepted task point maxRollback timestamp = .ok after)
    (applied' : handler'.applyIndexingTask now' accepted' task' point' maxRollback' timestamp' =
      .ok after') (increasing : Increasing after.db.log) (increasing' : Increasing after'.db.log) :
    Agree IsData after'.db.view after.db.view := by
  intro key data
  rw [view_applied applied increasing key data, view_applied applied' increasing' key data, same,
    agree key data]

theorem IndexesBlock.agree {block block' : IndexedBlock}
    (indexes : IndexesBlock indexers network handler after block)
    (indexes' : IndexesBlock indexers network handler' after' block')
    (same : block'.content = block.content)
    (agree : Agree IsData handler'.db.view handler.db.view) :
    Agree IsData after'.db.view after.db.view := by
  rcases indexes with
    ⟨current, increasing, mutable, cache, final, now, accepted, maxRollback, indexed, applied, _⟩
  rcases indexes' with ⟨current', increasing', mutable', cache', final', now', accepted',
    maxRollback', indexed', applied', _⟩
  have point : block'.point = block.point := congrArg Prod.fst same
  have txs : block'.txs = block.txs := congrArg Prod.snd same
  rw [point, txs] at indexed'
  -- both blocks are compared with the one indexed without a record of originals
  have begun : Twins False (handler.beginIndexingTask mutable) (handler.beginIndexingTask false) :=
    Twins.begun current current (by intro key data; rfl) (Or.inr ⟨not_false, rfl⟩)
  have begun' : Twins False (handler'.beginIndexingTask mutable') (handler.beginIndexingTask false) :=
    Twins.begun current' current agree.symm (Or.inr ⟨not_false, rfl⟩)
  rcases (indexBlock_twins indexers block.point block.txs network none none begun
    (begun.resolved block.txs block.point network none)).ok (congrArg Prod.snd indexed) with
    ⟨plain, ran, twins⟩
  rcases (indexBlock_twins indexers block.point block.txs network none none begun'
    (begun'.resolved block.txs block.point network none)).ok (congrArg Prod.snd indexed') with
    ⟨plain', ran', twins'⟩
  have buffer : final'.writeBuffer = final.writeBuffer := by
    rw [ran, Except.ok.injEq] at ran'
    rw [← twins.buffer, ← twins'.buffer, ran']
  exact agree_applied agree buffer applied applied' increasing increasing'

theorem IndexesSnapshot.agree {tip : Point} {blocks : List BlockTxs}
    (indexes : IndexesSnapshot indexers network handler after tip blocks)
    (indexes' : IndexesSnapshot indexers network handler' after' tip blocks)
    (agree : Agree IsData handler'.db.view handler.db.view) :
    Agree IsData after'.db.view after.db.view := by
  rcases indexes with ⟨current, increasing, _, cache, final, now, accepted, pseudo, maxRollback,
    timestamp, indexed, applied⟩
  rcases indexes' with ⟨current', increasing', _, cache', final', now', accepted', pseudo',
    maxRollback', timestamp', indexed', applied'⟩
  have begun : Twins True handler.beginMempoolIndexingTask handler'.beginMempoolIndexingTask :=
    Twins.begunMempool current current' agree
  rcases (indexMempool_twins indexers tip blocks network none none begun
    (begun.resolved blocks.flatten tip network none)).ok (congrArg Prod.snd indexed) with
    ⟨plain, ran, twins⟩
  have buffer : final'.writeBuffer = final.writeBuffer := by
    rw [indexed', Except.ok.injEq] at ran
    rw [← twins.buffer, ran]
  exact agree_applied agree buffer applied applied' increasing increasing'

end Commits

def Built (indexers : List Indexer) (network : Network) :
    List (Point × BlockTxs) → (RawKey → Cell) → Prop
  | [], view => Agree IsData view DB.empty.view
  | content :: below, view => ∃ handler after block,
      IndexesBlock indexers network handler after block ∧ block.content = content ∧
        Built indexers network below handler.db.view ∧ Agree IsData view after.db.view

def BuiltOn (indexers : List Indexer) (network : Network) (chain snapshot : List (Point × BlockTxs))
    (view : RawKey → Cell) : Prop :=
  ∃ handler after tip blocks, IndexesSnapshot indexers network handler after tip blocks ∧
    snapshot = (blocks.zipIdx.map (fun block => (pseudoPoint tip block.2, block.1))).reverse ∧
    Built indexers network chain handler.db.view ∧ Agree IsData view after.db.view

section Built

variable {indexers : List Indexer} {network : Network}
variable {chain snapshot : List (Point × BlockTxs)} {view other : RawKey → Cell}

theorem Built.congr (built : Built indexers network chain other) (agree : Agree IsData view other) :
    Built indexers network chain view := by
  cases chain with
  | nil => exact Agree.trans agree built
  | cons content below =>
      rcases built with ⟨handler, after, block, indexes, same, deeper, shown⟩
      exact ⟨handler, after, block, indexes, same, deeper, agree.trans shown⟩

theorem Built.agree (built : Built indexers network chain view)
    (built' : Built indexers network chain other) : Agree IsData other view := by
  induction chain generalizing view other with
  | nil => exact Agree.trans built' (Agree.symm built)
  | cons content below ih =>
      rcases built with ⟨handler, after, block, indexes, same, deeper, shown⟩
      rcases built' with ⟨handler', after', block', indexes', same', deeper', shown'⟩
      have step := indexes.agree indexes' (same'.trans same.symm) (ih deeper deeper')
      exact shown'.trans (step.trans shown.symm)

/-- The first pseudo block tells the tip a snapshot was built on. -/
theorem pseudoContents_injective {tip tip' : Point} {blocks blocks' : List BlockTxs}
    (some : blocks ≠ [])
    (same : blocks.zipIdx.map (fun block => (pseudoPoint tip block.2, block.1)) =
      blocks'.zipIdx.map (fun block => (pseudoPoint tip' block.2, block.1))) :
    tip = tip' ∧ blocks = blocks' := by
  have txs := congrArg (List.map Prod.snd) same
  have project (point : Point) (list : List BlockTxs) :
      (list.zipIdx.map (fun block => (pseudoPoint point block.2, block.1))).map Prod.snd = list := by
    rw [List.map_map]
    exact List.zipIdx_map_fst 0 list
  rw [project, project] at txs
  subst txs
  refine ⟨?_, rfl⟩
  cases blocks with
  | nil => exact absurd rfl some
  | cons first rest =>
      rw [List.zipIdx_cons, List.map_cons, List.map_cons, List.cons.injEq, Prod.mk.injEq] at same
      have points := same.1.1
      rw [pseudoPoint, pseudoPoint, Point.mk.injEq] at points
      have heights : tip.height = tip'.height := by
        have shifted := congrArg (fun height => height - (1 + BitVec.ofNat 64 0)) points.1
        simpa [BitVec.add_assoc] using shifted
      rcases tip with ⟨height, hash⟩
      rcases tip' with ⟨height', hash'⟩
      rw [Point.mk.injEq]
      exact ⟨heights, points.2⟩

theorem BuiltOn.agree (built : BuiltOn indexers network chain snapshot view)
    (built' : BuiltOn indexers network chain snapshot other) : Agree IsData other view := by
  rcases built with ⟨handler, after, tip, blocks, indexes, listed, below, shown⟩
  rcases built' with ⟨handler', after', tip', blocks', indexes', listed', below', shown'⟩
  rw [listed, List.reverse_inj] at listed'
  rcases pseudoContents_injective indexes.2.2.1 listed' with ⟨rfl, rfl⟩
  have step := indexes.agree indexes' (below.agree below')
  exact shown'.trans (step.trans shown.symm)

end Built

/-- The view is what the blocks of the history lead to. -/
def Reflects (indexers : List Indexer) (network : Network) (history : History)
    (view : RawKey → Cell) : Prop :=
  (history.snapshot = [] →
    Built indexers network (history.confirmed.map IndexedBlock.content) view) ∧
  (history.snapshot ≠ [] →
    BuiltOn indexers network (history.confirmed.map IndexedBlock.content)
      (history.snapshot.map IndexedBlock.content) view)

theorem reflects_invariant (indexers : List Indexer) (network : Network) :
    HistoryInvariant indexers network (Reflects indexers network) := by
  constructor
  · intro history view other agree reflects
    constructor
    · intro none
      exact (reflects.1 none).congr agree
    · intro some
      rcases reflects.2 some with ⟨handler, after, tip, blocks, indexes, listed, below, shown⟩
      exact ⟨handler, after, tip, blocks, indexes, listed, below, agree.trans shown⟩
  · constructor
    · intro _ key _
      rfl
    · intro some
      exact absurd rfl some
  · intro confirmed handler after block indexes before _
    constructor
    · intro _
      exact ⟨handler, after, block, indexes, rfl, before.1 rfl, by intro key _; rfl⟩
    · intro some
      exact absurd rfl some
  · intro confirmed handler after tip blocks indexes before _
    rcases indexes.parts with ⟨ctx, _, _, _, _, _, _, _, _, _, ran, same, _⟩
    have listed := pseudoBlocks_contents ran
    constructor
    · intro none
      have length := congrArg List.length listed
      rw [same, List.reverse_eq_nil_iff] at none
      rw [none, List.map_nil, List.length_nil, List.length_map, List.length_zipIdx] at length
      exact absurd (List.length_eq_zero_iff.mp length.symm) indexes.2.2.1
    · intro _
      refine ⟨handler, after, tip, blocks, indexes, ?_, before.1 rfl, by intro key _; rfl⟩
      rw [same, List.map_reverse, listed]

theorem Reflects.agree {indexers : List Indexer} {network : Network} {history history' : History}
    {view view' : RawKey → Cell} (reflects : Reflects indexers network history view)
    (reflects' : Reflects indexers network history' view')
    (confirmed : history'.confirmed.map IndexedBlock.content =
      history.confirmed.map IndexedBlock.content)
    (snapshot : history'.snapshot.map IndexedBlock.content =
      history.snapshot.map IndexedBlock.content) :
    Agree IsData view' view := by
  by_cases none : history.snapshot = []
  · have none' : history'.snapshot = [] := by
      rw [none, List.map_nil, List.map_eq_nil_iff] at snapshot
      exact snapshot
    have built' := reflects'.1 none'
    rw [confirmed] at built'
    exact (reflects.1 none).agree built'
  · have some' : history'.snapshot ≠ [] := by
      intro empty
      rw [empty, List.map_nil] at snapshot
      exact none (List.map_eq_nil_iff.mp snapshot.symm)
    have built' := reflects'.2 some'
    rw [confirmed, snapshot] at built'
    exact (reflects.2 none).agree built'

end Symphony
