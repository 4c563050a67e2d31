import Symphony.Sync.PeerSession

/-! What the session is for: requests go to the node and its answers come back in the order they were
sent in, whatever tasks and channels they pass. -/

namespace Symphony

/-- A call with all that is on its way: the submitted requests that the node has not taken yet, and the
headers and blocks that no call has returned yet. -/
structure Exchange where
  client : Client
  stopped : Bool
  requests : List Request
  headers : List (List Header)
  blocks : List RawBlock

def Request.waiting : Request → Client
  | .newHeaders intersects => .awaitingHeaders intersects
  | .blocks hashes => .awaitingBlocks hashes []

def Request.refused : Request → CallResult
  | .newHeaders intersects => .headers intersects (.error .egressChannelClosed)
  | .blocks hashes => .blocks hashes [] (.error .panicked)

def NetworkMessage.requests : NetworkMessage → List Request
  | .getHeaders intersects => [.newHeaders intersects]
  | .getData hashes => [.blocks hashes]
  | _ => []

def DecodedMessage.headersOf : DecodedMessage → List (List Header)
  | .headers listed => [listed]
  | _ => []

def DecodedMessage.blocksOf : DecodedMessage → List RawBlock
  | .block raw => [raw]
  | _ => []

namespace SessionMove

def submitted : SessionMove → List Request
  | .submit request => [request]
  | _ => []

def heard : SessionMove → List Request
  | .hear message => message.requests
  | _ => []

def saidHeaders : SessionMove → List (List Header)
  | .say message => message.headersOf
  | _ => []

def saidBlocks : SessionMove → List RawBlock
  | .say message => message.blocksOf
  | _ => []

end SessionMove

namespace CallResult

def headersOf : CallResult → List (List Header)
  | .headers _ (.ok listed) => [listed]
  | _ => []

/-- The blocks that the call has taken, checked or not. -/
def blocksOf : CallResult → List RawBlock
  | .headers _ _ => []
  | .blocks _ raw _ => raw

end CallResult

namespace Exchange

variable (format : BlockFormat)

/-- What one move can do to an exchange. -/
inductive Step : Exchange → SessionMove → List CallResult → Exchange → Prop
  | quiet {exchange : Exchange} {move : SessionMove} (submitted : move.submitted = [])
      (heard : move.heard = []) (headers : move.saidHeaders = [] ∨ exchange.stopped)
      (blocks : move.saidBlocks = [] ∨ exchange.stopped) : Step exchange move [] exchange
  | connected {exchange : Exchange} (connecting : exchange.client = .connecting) :
      Step exchange .connected [] { exchange with client := .idle }
  | call {exchange : Exchange} {request : Request} (idle : exchange.client = .idle) :
      Step exchange (.call request) [] { exchange with client := .requesting request }
  | submit {exchange : Exchange} {request : Request} (running : exchange.stopped = false)
      (requesting : exchange.client = .requesting request) :
      Step exchange (.submit request) [] { exchange with
        client := request.waiting
        requests := exchange.requests ++ [request] }
  | refused {exchange : Exchange} {request : Request} (stopped : exchange.stopped)
      (requesting : exchange.client = .requesting request) :
      Step exchange (.submit request) [request.refused] { exchange with client := .idle }
  | headers {exchange : Exchange} {intersects : List BlockHash} {first : List Header}
      {rest : List (List Header)} (awaiting : exchange.client = .awaitingHeaders intersects)
      (next : exchange.headers = first :: rest) :
      Step exchange .recv [.headers intersects (.ok first)]
        { exchange with client := .idle, headers := rest }
  | headersClosed {exchange : Exchange} {intersects : List BlockHash} (stopped : exchange.stopped)
      (awaiting : exchange.client = .awaitingHeaders intersects) (none : exchange.headers = []) :
      Step exchange .recv [.headers intersects (.error (.peerChannelClosed "headers"))]
        { exchange with client := .idle }
  | block {exchange : Exchange} {hashes : List BlockHash} {blocks rest : List RawBlock}
      {raw : RawBlock} (awaiting : exchange.client = .awaitingBlocks hashes blocks)
      (next : exchange.blocks = blocks ++ raw :: rest) (few : blocks.length ≠ hashes.length) :
      Step exchange .recv [] { exchange with client := .awaitingBlocks hashes (blocks ++ [raw]) }
  | checked {exchange : Exchange} {hashes : List BlockHash} {blocks rest : List RawBlock}
      (awaiting : exchange.client = .awaitingBlocks hashes blocks)
      (taken : exchange.blocks = blocks ++ rest) (all : blocks.length = hashes.length) :
      Step exchange .recv [.blocks hashes blocks (checkBlocks format hashes blocks)]
        { exchange with client := .idle, blocks := rest }
  | blocksClosed {exchange : Exchange} {hashes : List BlockHash} {blocks : List RawBlock}
      (stopped : exchange.stopped) (awaiting : exchange.client = .awaitingBlocks hashes blocks)
      (none : exchange.blocks = blocks) :
      Step exchange .recv [.blocks hashes blocks (.error (.peerChannelClosed "blocks"))]
        { exchange with client := .idle, blocks := [] }
  | stop {exchange after : Exchange} (same : after.client = exchange.client)
      (stopped : after.stopped) (requests : after.requests <+: exchange.requests)
      (headers : after.headers <+: exchange.headers) (blocks : after.blocks <+: exchange.blocks) :
      Step exchange .stop [] after
  | hear {exchange : Exchange} {message : NetworkMessage} {rest : List Request}
      (next : exchange.requests = message.requests ++ rest) :
      Step exchange (.hear message) [] { exchange with requests := rest }
  | say {exchange : Exchange} {message : DecodedMessage} (running : exchange.stopped = false) :
      Step exchange (.say message) [] { exchange with
        headers := exchange.headers ++ message.headersOf
        blocks := exchange.blocks ++ message.blocksOf }

/-- What some moves can do, with the results of all calls that return. -/
inductive Run : Exchange → List SessionMove → List CallResult → Exchange → Prop
  | nil (exchange : Exchange) : Run exchange [] [] exchange
  | cons {exchange middle after : Exchange} {move : SessionMove} {moves : List SessionMove}
      {results later : List CallResult} (step : Step format exchange move results middle)
      (run : Run middle moves later after) : Run exchange (move :: moves) (results ++ later) after

end Exchange

end Symphony
