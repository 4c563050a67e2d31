import Symphony.Sync.Pull

/-! The two stages of the pipeline (`sync/pipeline.rs`).

The pull stage sends its events through a queue to the index stage, which executes them in that
order at any later time. Both share the database. -/

namespace Symphony

/-- The stages and their queue. The last three fields record what has happened: the events
emitted so far, the database as it was when the cursor was built, and the height of the first
block in the page the cursor was built for. -/
structure Pipeline where
  worker : PullWorker
  machine : Machine
  queue : List ChainEvent
  emitted : List ChainEvent
  seen : DB
  floor : Option BlockHeight

/-- What happens next: the pull stage asks the node for headers or for a block template, or the
index stage takes an event off the queue. -/
inductive Move where
  | fetch (peer : Peer)
  | template (info : MempoolSnapshotInfo) (txs : BlockTxs)
  | index (env : Env)

def ChainEvent.forwardHeight : ChainEvent → Option BlockHeight
  | .rollForward point _ _ _ => some point.height
  | .rollBack _ => none
  | .mempoolBlocks _ _ => none

namespace Pipeline

def start (machine : Machine) (worker : PullWorker) : Pipeline :=
  ⟨worker, machine, [], [], machine.stage.db.db, none⟩

def emit (pipeline : Pipeline) (events : List ChainEvent) : Pipeline :=
  { pipeline with
    queue := pipeline.queue ++ events
    emitted := pipeline.emitted ++ events }

/-- One fetch. The cursor is only built anew when the node has sent headers. -/
def fetch (blockHash : Header → BlockHash) (stage : PullStage) (pipeline : Pipeline) (peer : Peer) :
    Option Pipeline :=
  let db := pipeline.machine.stage.db.db
  match pipeline.worker.fetchChainActions blockHash stage peer (Reads.of db) with
  | .error _ => none
  | .ok (events, worker) =>
      let fetched := { pipeline.emit events with worker }
      match peer.getNewHeaders blockHash stage (pipeline.worker.cursor.map Point.hash) with
      | [] => some fetched
      | _ :: _ => some { fetched with
          seen := db
          floor := (events.filterMap ChainEvent.forwardHeight).head? }

/-- A fetch that fails ends the run; the index stage goes on with what a call leaves behind. -/
def step (blockHash : Header → BlockHash) (stage : PullStage) (pipeline : Pipeline) :
    Move → Option Pipeline
  | .fetch peer => pipeline.fetch blockHash stage peer
  | .template info txs => some (pipeline.emit [.mempoolBlocks info [txs]])
  | .index env => match pipeline.queue with
      | [] => none
      | event :: queue =>
          some { pipeline with machine := (pipeline.machine.execute env event).1, queue }

def run (blockHash : Header → BlockHash) (stage : PullStage) (pipeline : Pipeline) :
    List Move → Option Pipeline
  | [] => some pipeline
  | move :: moves => match pipeline.step blockHash stage move with
      | none => none
      | some next => next.run blockHash stage moves

end Pipeline

end Symphony
