import Symphony.Sync.Stage

/-! The pull stage (`pull/stage.rs`) and the locator it sends to the node
(`core/hash_by_height.rs`).

The node answers with blocks whose hashes the peer has already checked, so a header and its
block come as one. -/

namespace Symphony

open Encdec

/-- The heights of the locator: single steps first, doubled from the tenth height on. The index
falls in every round, so that one round more than its value is enough. -/
def locatorHeights : (rounds pushed : Nat) → (step index : U64) → List U64
  | 0, _, _, _ => []
  | rounds + 1, pushed, step, index =>
      let step := if 10 ≤ pushed + 1 then step * 2 else step
      let next := saturatingSub index step
      index :: if next = 0 then [] else locatorHeights rounds (pushed + 1) step next

/-- The database as the reads of one call find it, the iterator first, then one `get` after the
other. All are at the latest timestamp: what is committed in between shows. -/
structure Reads where
  top : DB
  get : Nat → DB

def Reads.of (db : DB) : Reads := ⟨db, fun _ => db⟩

def Reads.rest (reads : Reads) : Reads := { reads with get := fun index => reads.get (index + 1) }

def lastEntryHeight (db : DB) : Except Error (Option U64) :=
  let range := HashByHeightKV.encodeRange none none
  match ((Reader.mk db Timestamp.latest).iterKvs HashByHeightKV range true).head? with
  | none => .ok none
  | some (.error failure) => .error failure
  | some (.ok (height, _)) => .ok (some height)

def readPoint (db : DB) (height : U64) : Except Error Point :=
  match (Reader.mk db Timestamp.latest).get HashByHeightKV height with
  | .error failure => .error failure
  | .ok none => .error (.panicked "missing hash by height kv")
  | .ok (some hash) => .ok ⟨height, hash⟩

def readPoints (reads : Reads) : List U64 → Except Error (List Point)
  | [] => .ok []
  | height :: heights => match readPoint (reads.get 0) height with
      | .error failure => .error failure
      | .ok point => (readPoints reads.rest heights).map (fun points => point :: points)

/-- `HashByHeightKV::intersect_options`. -/
def intersectOptions (reads : Reads) (genesisHash : BlockHash) : Except Error (List Point) :=
  match lastEntryHeight reads.top with
  | .error failure => .error failure
  | .ok none => .ok [⟨0, genesisHash⟩]
  | .ok (some tipHeight) =>
      (readPoints reads (locatorHeights (tipHeight.toNat + 1) 0 1 tipHeight)).map
        (fun points => points ++ [⟨0, genesisHash⟩])

structure NodeBlock where
  header : Header
  txs : BlockTxs
  deriving DecidableEq

/-- The node at one request: the blocks of its active chain above genesis, oldest first, and how
many headers it sends at once. -/
structure Peer where
  active : List NodeBlock
  limit : Nat

structure PullStage where
  genesisHash : BlockHash
  blockPageSize : Nat

structure PullWorker where
  cursor : List Point
  tip : Point
  deriving DecidableEq

section Fetch

variable (blockHash : Header → BlockHash) (stage : PullStage)

def Peer.hashes (peer : Peer) : List BlockHash :=
  stage.genesisHash :: peer.active.map (fun block => blockHash block.header)

/-- What follows the first locator hash on the active chain; all of it when there is none. -/
def Peer.getNewHeaders (peer : Peer) (locator : List BlockHash) : List NodeBlock :=
  let chain := peer.hashes blockHash stage
  let start := match locator.find? (fun hash => decide (hash ∈ chain)) with
    | some hash => chain.idxOf hash
    | none => 0
  (peer.active.drop start).take peer.limit

def intersectHeight (cursor : List Point) (hash : BlockHash) : Option BlockHeight :=
  (cursor.reverse.find? (fun point => point.hash = hash)).map Point.height

def assignHeights (height : BlockHeight) : List NodeBlock → List Point
  | [] => []
  | block :: blocks => ⟨height, blockHash block.header⟩ :: assignHeights (height + 1) blocks

def rollForwards (height : BlockHeight) (tip : Point) : List NodeBlock → List ChainEvent × Point
  | [] => ([], tip)
  | block :: blocks =>
      let point : Point := ⟨height, blockHash block.header⟩
      let tip := if tip.height < height then point else tip
      let rest := rollForwards (height + 1) tip blocks
      (.rollForward point block.header block.txs tip :: rest.1, rest.2)

def rollBackTo (cursor : List Point) (intersect : Point) : List ChainEvent :=
  match cursor.head? with
  | none => []
  | some tip => if intersect.height ≠ tip.height then [.rollBack intersect] else []

/-- The headers just processed, and points of the database below them if they are few. -/
def nextCursor (fetched : List Point) (reads : Reads) : Except WorkerError (List Point) :=
  let recent := fetched.reverse.take 50
  let genesis : Point := ⟨0, stage.genesisHash⟩
  if recent.length < 50 then
    match orPanic (intersectOptions reads stage.genesisHash) with
    | .error failure => .error failure
    | .ok options => match recent.getLast? with
        | some last =>
            .ok (recent ++ options.filter (fun point => point.height < last.height) ++ [genesis])
        | none => .ok (options ++ [genesis])
  else .ok (recent ++ [genesis])

def PullWorker.bootstrap (reads : Reads) (tip : Point) : Except WorkerError PullWorker :=
  (orPanic (intersectOptions reads stage.genesisHash)).map (fun cursor => ⟨cursor, tip⟩)

def PullWorker.fetchChainActions (worker : PullWorker) (peer : Peer) (reads : Reads) :
    Except WorkerError (List ChainEvent × PullWorker) :=
  match peer.getNewHeaders blockHash stage (worker.cursor.map Point.hash) with
  | [] => .ok ([], worker)
  | first :: later =>
      let headers := (first :: later).take stage.blockPageSize
      match intersectHeight worker.cursor first.header.prevBlockhash with
      | none => .error .restart
      | some height =>
          match nextCursor stage (assignHeights blockHash (height + 1) headers) reads with
          | .error failure => .error failure
          | .ok cursor =>
              let forwards := rollForwards blockHash (height + 1) worker.tip headers
              .ok (rollBackTo worker.cursor ⟨height, first.header.prevBlockhash⟩ ++ forwards.1,
                ⟨cursor, forwards.2⟩)

end Fetch

end Symphony
