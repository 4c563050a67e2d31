import Symphony.Sync.SessionFetch

/-! A node that answers the requests it takes in their order, and the sessions with it. -/

namespace Symphony

/-- A node that keeps every block of its chains. -/
structure HonestNode where
  format : BlockFormat
  stage : PullStage
  stored : BlockHash → Option NodeBlock
  encode : NodeBlock → RawBlock
  hashed : ∀ hash block, stored hash = some block → format.blockHash block.header = hash
  decoded : ∀ hash block, stored hash = some block → format.decode (encode block) = some block

namespace HonestNode

variable (node : HonestNode)

def headersFor (peer : Peer) (intersects : List BlockHash) : List Header :=
  (peer.getNewHeaders node.format.blockHash node.stage intersects).map NodeBlock.header

def blocksFor (hashes : List BlockHash) : List RawBlock :=
  hashes.filterMap (fun hash => (node.stored hash).map node.encode)

def answers (peer : Peer) : NetworkMessage → List DecodedMessage
  | .version => [.version, .verack]
  | .verack => []
  | .pong _ => []
  | .getHeaders intersects => [.headers (node.headersFor peer intersects)]
  | .getData hashes => (node.blocksFor hashes).map .block

/-- The blocks of the chain are kept under their hashes. -/
def Keeps (peer : Peer) : Prop :=
  ∀ block ∈ peer.active, node.stored (node.format.blockHash block.header) = some block

instance (peer : Peer) : Decidable (node.Keeps peer) :=
  inferInstanceAs (Decidable (∀ block ∈ peer.active,
    node.stored (node.format.blockHash block.header) = some block))

end HonestNode

/-- Headers and blocks are only sent as answers. -/
def DecodedMessage.isAnswer : DecodedMessage → Bool
  | .headers _ => true
  | .block _ => true
  | _ => false

def SessionMove.own : SessionMove → Bool
  | .hear _ => false
  | .say _ => false
  | _ => true

/-- A session with its node: the chain the node is on, and what it still owes. -/
structure Talk where
  session : PeerSession
  peer : Peer
  owed : List DecodedMessage

/-- A step of the session; or the node takes a message when it owes nothing, sends the next answer,
sends something else of its own, or changes to another chain. -/
inductive TalkMove where
  | session (move : SessionMove)
  | hear
  | answer
  | volunteer (message : DecodedMessage)
  | chain (peer : Peer)

def TalkMove.chains : TalkMove → List Peer
  | .chain peer => [peer]
  | _ => []

namespace Talk

def step (node : HonestNode) (talk : Talk) : TalkMove → Option (Talk × List CallResult)
  | .session move =>
      if move.own then (talk.session.step node.format move).map (fun (session, results) =>
        ({ talk with session }, results))
      else none
  | .hear => match talk.owed, talk.session.sent with
      | [], message :: _ => (talk.session.step node.format (.hear message)).map
          (fun (session, results) =>
            ({ talk with session, owed := node.answers talk.peer message }, results))
      | _, _ => none
  | .answer => match talk.owed with
      | message :: owed => (talk.session.step node.format (.say message)).map
          (fun (session, results) => ({ talk with session, owed }, results))
      | [] => none
  | .volunteer message =>
      if message.isAnswer then none
      else (talk.session.step node.format (.say message)).map (fun (session, results) =>
        ({ talk with session }, results))
  | .chain peer => if node.Keeps peer then some ({ talk with peer }, []) else none

def run (node : HonestNode) (talk : Talk) : List TalkMove → Option (Talk × List CallResult)
  | [] => some (talk, [])
  | move :: moves => match talk.step node move with
      | none => none
      | some (next, results) => (next.run node moves).map (fun (finish, later) =>
          (finish, results ++ later))

end Talk

/-- A fetch over a session. -/
structure FetchTalk where
  talk : Talk
  fetch : Fetch

namespace FetchTalk

section Moves

variable (node : HonestNode) (worker : PullWorker) (reads : Reads)

/-- The worker makes the calls of its fetch. -/
def permits (state : FetchTalk) : TalkMove → Bool
  | .session (.call request) => state.fetch.request node.format.blockHash worker = some request
  | _ => true

def step (state : FetchTalk) (move : TalkMove) : Option FetchTalk :=
  if state.permits node worker move then
    (state.talk.step node move).map (fun (talk, results) =>
      ⟨talk, results.foldl (Fetch.resume node.format.blockHash node.stage worker reads) state.fetch⟩)
  else none

def run (state : FetchTalk) (moves : List TalkMove) : Option FetchTalk :=
  moves.foldlM (FetchTalk.step node worker reads) state

end Moves

end FetchTalk

end Symphony
