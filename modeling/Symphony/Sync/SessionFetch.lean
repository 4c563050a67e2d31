import Symphony.Sync.PeerSession

/-! `Worker::fetch_chain_actions` (`pull/stage.rs`) with its calls to the node one after the other. -/

namespace Symphony

/-- Where a fetch is: it asks for headers, then for the blocks of a page of them, and ends. -/
inductive Fetch where
  | askHeaders
  | askBlocks (first : Header) (headers : List Header)
  | ended (outcome : Except WorkerError (List ChainEvent × PullWorker))
  deriving DecidableEq

/-- An error of the session restarts the worker; a failed `unwrap` unwinds. -/
def P2PError.workerError : P2PError → WorkerError
  | .panicked => .unwound "called Result::unwrap() on an Err value"
  | _ => .restart

section Fetch

variable (blockHash : Header → BlockHash) (stage : PullStage)

/-- The events of a page and its blocks. A header is sent with the transactions of the block that was
received for it. -/
def PullWorker.processPage (worker : PullWorker) (reads : Reads) (first : Header)
    (headers : List Header) (blocks : List NodeBlock) :
    Except WorkerError (List ChainEvent × PullWorker) :=
  if headers.length ≠ blocks.length then .error .restart
  else match intersectHeight worker.cursor first.prevBlockhash with
    | none => .error .restart
    | some height =>
        let pairs := headers.zip blocks
        let page := pairs.map (fun (header, block) => { block with header })
        match nextCursor stage (assignHeights blockHash (height + 1) page) reads with
        | .error failure => .error failure
        | .ok cursor =>
            if pairs.all (fun (header, block) => blockHash header = blockHash block.header) then
              let forwards := rollForwards blockHash (height + 1) worker.tip page
              .ok (rollBackTo worker.cursor ⟨height, first.prevBlockhash⟩ ++ forwards.1,
                ⟨cursor, forwards.2⟩)
            else .error .restart

namespace Fetch

def request (worker : PullWorker) : Fetch → Option Request
  | .askHeaders => some (.newHeaders (worker.cursor.map Point.hash))
  | .askBlocks _ headers => some (.blocks (headers.map blockHash))
  | .ended _ => none

/-- The fetch after a call has returned; the headers are cut to a page. -/
def resume (worker : PullWorker) (reads : Reads) : Fetch → CallResult → Fetch
  | .askHeaders, .headers _ (.error failure) => .ended (.error failure.workerError)
  | .askHeaders, .headers _ (.ok []) => .ended (.ok ([], worker))
  | .askHeaders, .headers _ (.ok (first :: headers)) =>
      .askBlocks first ((first :: headers).take stage.blockPageSize)
  | .askBlocks _ _, .blocks _ _ (.error failure) => .ended (.error failure.workerError)
  | .askBlocks first headers, .blocks _ _ (.ok blocks) =>
      .ended (worker.processPage blockHash stage reads first headers blocks)
  | fetch, _ => fetch

end Fetch

end Fetch

end Symphony
