import Symphony.Sync.Pipeline

/-! The worker loop of the pull stage (`pull/stage.rs`) and the channel it sends to.

A call of `schedule` is cut where it waits, and `execute` sends one event after the other, so that
the index stage may run in between. -/

namespace Symphony

structure PullConfig extends PullStage where
  mempoolEnabled : Bool
  queueSize : Nat

/-- Where the worker is, with the units gathered so far or still to be sent. -/
inductive PullPhase where
  | scheduling
  | waiting (units : List ChainEvent)
  | templating (units : List ChainEvent)
  | executing (units : List ChainEvent)
  | done

def PullPhase.units : PullPhase → List ChainEvent
  | .waiting units => units
  | .templating units => units
  | .executing units => units
  | .scheduling => []
  | .done => []

def PullPhase.ofUnits (units : List ChainEvent) : PullPhase :=
  if units.isEmpty then .scheduling else .executing units

structure PullLoop where
  worker : PullWorker
  initialised : Bool
  tipReached : Bool
  phase : PullPhase
  queue : List ChainEvent
  machine : Machine

inductive PullMove where
  | shutdown
  | schedule (peer : Peer) (tips : List Point)
  | fetch (peer : Peer)
  | template (info : MempoolSnapshotInfo) (txs : BlockTxs)
  | send
  | index (env : Env)

/-- The highest chain tip; the last of equally high ones. -/
def highestTip (tips : List Point) : Option Point :=
  tips.foldl (fun best tip => best.elim (some tip) (fun highest =>
    if tip.height < highest.height then some highest else some tip)) none

/-- A node that answers genesis with no headers is still syncing. -/
def nodeSyncing (blockHash : Header → BlockHash) (stage : PullStage) (peer : Peer) : Bool :=
  (peer.getNewHeaders blockHash stage [stage.genesisHash]).isEmpty

namespace PullLoop

def start (machine : Machine) (worker : PullWorker) : PullLoop :=
  ⟨worker, false, false, .scheduling, [], machine⟩

section Moves

variable (blockHash : Header → BlockHash) (config : PullConfig)

/-- The node is asked for its tip again as long as it is syncing. -/
def syncs (loop : PullLoop) (peer : Peer) : Bool :=
  !loop.initialised && nodeSyncing blockHash config.toPullStage peer

/-- `schedule` up to its first wait. Before the tip is reached the units are sent at once; a fetch
that brings nothing reaches the tip. -/
def schedule (loop : PullLoop) (peer : Peer) (tips : List Point) : Option PullLoop :=
  if loop.syncs blockHash config peer then
    (highestTip tips).map (fun tip => { loop with worker := { loop.worker with tip } })
  else if loop.tipReached then some { loop with initialised := true, phase := .waiting [] }
  else match loop.worker.fetchChainActions blockHash config.toPullStage peer
      (Reads.of loop.machine.stage.db.db) with
    | .error _ => none
    | .ok (units, worker) => some { loop with
        worker
        initialised := true
        tipReached := units.isEmpty
        phase := if units.isEmpty then .waiting units else .executing units }

def fetch (loop : PullLoop) (units : List ChainEvent) (peer : Peer) : Option PullLoop :=
  match loop.worker.fetchChainActions blockHash config.toPullStage peer
      (Reads.of loop.machine.stage.db.db) with
  | .error _ => none
  | .ok (events, worker) => some { loop with
      worker
      phase := if config.mempoolEnabled then .templating (units ++ events)
        else .ofUnits (units ++ events) }

def send (loop : PullLoop) : List ChainEvent → Option PullLoop
  | [] => none
  | unit :: units =>
      if loop.queue.length < config.queueSize then
        some { loop with queue := loop.queue ++ [unit], phase := .ofUnits units }
      else none

def step (loop : PullLoop) (move : PullMove) : Option PullLoop :=
  match move, loop.phase with
  | .shutdown, .scheduling => some { loop with phase := .done }
  | .schedule peer tips, .scheduling => loop.schedule blockHash config peer tips
  | .fetch peer, .waiting units => loop.fetch blockHash config units peer
  | .template info txs, .templating units =>
      some { loop with phase := .executing (units ++ [.mempoolBlocks info [txs]]) }
  | .send, .executing units => loop.send config units
  | .index env, _ => match loop.queue with
      | [] => none
      | event :: queue =>
          some { loop with machine := (loop.machine.execute env event).1, queue }
  | _, _ => none

def asks (loop : PullLoop) : PullMove → List Move
  | .schedule peer _ =>
      if loop.syncs blockHash config peer || loop.tipReached then [] else [.fetch peer]
  | .fetch peer => [.fetch peer]
  | .template info txs => [.template info txs]
  | .index env => [.index env]
  | .shutdown => []
  | .send => []

def run (loop : PullLoop) : List PullMove → Option (PullLoop × List Move)
  | [] => some (loop, [])
  | move :: moves => match loop.step blockHash config move with
      | none => none
      | some next => (next.run moves).map (fun (finish, asked) =>
          (finish, loop.asks blockHash config move ++ asked))

end Moves

end PullLoop

end Symphony
