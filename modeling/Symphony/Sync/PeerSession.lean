import Symphony.Sync.Pull

/-! The session with the node (`pull/peer.rs`): the calls of the worker, the tasks that serve them and
the bounded channels in between.

A move is one step of one task, or what the node does. The streams carry whole messages. -/

namespace Symphony

open BigEndian (Byte)
open Encdec (U64)

abbrev RawBlock := List Byte

inductive Inventory where
  | block (hash : BlockHash)
  | other
  deriving DecidableEq

/-- The messages of the node, as far as they are told apart. -/
inductive DecodedMessage where
  | version
  | verack
  | ping (nonce : U64)
  | inv (inventory : List Inventory)
  | headers (headers : List Header)
  | block (raw : RawBlock)
  | unused
  deriving DecidableEq

inductive NetworkMessage where
  | version
  | verack
  | pong (nonce : U64)
  | getHeaders (intersects : List BlockHash)
  | getData (hashes : List BlockHash)
  deriving DecidableEq

inductive Request where
  | newHeaders (intersects : List BlockHash)
  | blocks (hashes : List BlockHash)
  deriving DecidableEq

def Request.message : Request → NetworkMessage
  | .newHeaders intersects => .getHeaders intersects
  | .blocks hashes => .getData hashes

/-- The errors of a call; `panicked` is the `unwrap` of a failed send. -/
inductive P2PError where
  | ingressDecoding
  | egressChannelClosed
  | peerChannelClosed (channel : String)
  | getBlocksMismatch (received requested : BlockHash)
  | panicked
  deriving DecidableEq

/-- What the session calls of the bitcoin crate: the hash of a header and the decoder of blocks. -/
structure BlockFormat where
  blockHash : Header → BlockHash
  decode : RawBlock → Option NodeBlock

/-- The check of `Peer::get_blocks`; the first block that fails decides. -/
def checkBlocks (format : BlockFormat) : List BlockHash → List RawBlock →
    Except P2PError (List NodeBlock)
  | hash :: hashes, raw :: raws => match format.decode raw with
      | none => .error .ingressDecoding
      | some block =>
          if format.blockHash block.header = hash then
            (checkBlocks format hashes raws).map (fun blocks => block :: blocks)
          else .error (.getBlocksMismatch (format.blockHash block.header) hash)
  | _, _ => .ok []

/-- Where the worker is: it waits for the handshake, or is in a call. -/
inductive Client where
  | connecting
  | idle
  | requesting (request : Request)
  | awaitingHeaders (intersects : List BlockHash)
  | awaitingBlocks (hashes : List BlockHash) (blocks : List RawBlock)
  deriving DecidableEq

/-- Where `PeerHandler::run` is: it waits for a request or a message, for room in the channel it sends
to, or has returned. -/
inductive PeerHandler where
  | selecting
  | sending (message : NetworkMessage)
  | relayingHeaders (headers : List Header)
  | relayingBlock (raw : RawBlock)
  | stopped
  deriving DecidableEq

inductive CallResult where
  | headers (intersects : List BlockHash) (result : Except P2PError (List Header))
  | blocks (hashes : List BlockHash) (raw : List RawBlock)
      (result : Except P2PError (List NodeBlock))
  deriving DecidableEq

structure PeerSession where
  client : Client
  requestQueue : List Request
  handler : PeerHandler
  egressQueue : List NetworkMessage
  egress : Option NetworkMessage
  sent : List NetworkMessage
  received : List DecodedMessage
  ingress : Option DecodedMessage
  ingressQueue : List DecodedMessage
  headersQueue : List (List Header)
  blocksQueue : List RawBlock
  initNotified : Bool
  newBlockNotified : Bool

/-- The steps of the worker's calls, of the handler, of its egress and ingress tasks, and what the
node takes from the stream or writes to it. -/
inductive SessionMove where
  | connected
  | notified
  | call (request : Request)
  | submit (request : Request)
  | recv
  | handleRequest
  | handleMessage
  | relay
  | stop
  | egressRecv
  | writeMessage
  | readMessage
  | ingressSend
  | hear (message : NetworkMessage)
  | say (message : DecodedMessage)
  deriving DecidableEq

namespace PeerSession

def queueSize : Nat := 1

def relaySize : Nat := 20

/-- `Peer::connect`: the handler starts with its version message. -/
def connect : PeerSession where
  client := .connecting
  requestQueue := []
  handler := .sending .version
  egressQueue := []
  egress := none
  sent := []
  received := []
  ingress := none
  ingressQueue := []
  headersQueue := []
  blocksQueue := []
  initNotified := false
  newBlockNotified := false

section Calls

variable (format : BlockFormat) (session : PeerSession)

def submit (request : Request) : Option (PeerSession × List CallResult) :=
  if session.handler = .stopped then
    match request with
    | .newHeaders intersects => some ({ session with client := .idle },
        [.headers intersects (.error .egressChannelClosed)])
    | .blocks hashes => some ({ session with client := .idle }, [.blocks hashes [] (.error .panicked)])
  else if session.requestQueue.length < queueSize then
    some ({ session with
      requestQueue := session.requestQueue ++ [request]
      client := match request with
        | .newHeaders intersects => .awaitingHeaders intersects
        | .blocks hashes => .awaitingBlocks hashes [] }, [])
  else none

def recvHeaders (intersects : List BlockHash) : Option (PeerSession × List CallResult) :=
  match session.headersQueue with
  | headers :: headersQueue => some ({ session with headersQueue, client := .idle },
      [.headers intersects (.ok headers)])
  | [] =>
      if session.handler = .stopped then some ({ session with client := .idle },
        [.headers intersects (.error (.peerChannelClosed "headers"))])
      else none

/-- The blocks are checked once as many have come as were asked for. -/
def recvBlock (hashes : List BlockHash) (blocks : List RawBlock) :
    Option (PeerSession × List CallResult) :=
  if blocks.length = hashes.length then some ({ session with client := .idle },
    [.blocks hashes blocks (checkBlocks format hashes blocks)])
  else match session.blocksQueue with
    | raw :: blocksQueue => some ({ session with
        blocksQueue, client := .awaitingBlocks hashes (blocks ++ [raw]) }, [])
    | [] =>
        if session.handler = .stopped then some ({ session with client := .idle },
          [.blocks hashes blocks (.error (.peerChannelClosed "blocks"))])
        else none

end Calls

section Tasks

variable (session : PeerSession)

/-- `PeerHandler::tick` on a message. -/
def handleMessage (message : DecodedMessage) : PeerSession :=
  match message with
  | .version => { session with handler := .sending .verack }
  | .verack => { session with initNotified := true }
  | .inv inventory =>
      if inventory.any (fun item => item matches .block _) then
        { session with newBlockNotified := true }
      else session
  | .ping nonce => { session with handler := .sending (.pong nonce) }
  | .headers headers => { session with handler := .relayingHeaders headers }
  | .block raw => { session with handler := .relayingBlock raw }
  | .unused => session

/-- The handler sends what it holds, if its channel has room. -/
def relay : Option PeerSession :=
  match session.handler with
  | .sending message =>
      if session.egressQueue.length < queueSize then some { session with
        egressQueue := session.egressQueue ++ [message], handler := .selecting }
      else none
  | .relayingHeaders headers =>
      if session.headersQueue.length < relaySize then some { session with
        headersQueue := session.headersQueue ++ [headers], handler := .selecting }
      else none
  | .relayingBlock raw =>
      if session.blocksQueue.length < relaySize then some { session with
        blocksQueue := session.blocksQueue ++ [raw], handler := .selecting }
      else none
  | .selecting => none
  | .stopped => none

end Tasks

def step (format : BlockFormat) (session : PeerSession) :
    SessionMove → Option (PeerSession × List CallResult)
  | .connected =>
      if session.client = .connecting ∧ session.initNotified then
        some ({ session with client := .idle, initNotified := false }, [])
      else none
  | .notified =>
      if session.newBlockNotified then some ({ session with newBlockNotified := false }, []) else none
  | .call request =>
      if session.client = .idle then some ({ session with client := .requesting request }, [])
      else none
  | .submit request =>
      if session.client = .requesting request then session.submit request else none
  | .recv => match session.client with
      | .awaitingHeaders intersects => session.recvHeaders intersects
      | .awaitingBlocks hashes blocks => session.recvBlock format hashes blocks
      | _ => none
  | .handleRequest => match session.handler, session.requestQueue with
      | .selecting, request :: requestQueue => some ({ session with
          requestQueue, handler := .sending request.message }, [])
      | _, _ => none
  | .handleMessage => match session.handler, session.ingressQueue with
      | .selecting, message :: ingressQueue =>
          some (PeerSession.handleMessage { session with ingressQueue } message, [])
      | _, _ => none
  | .relay => session.relay.map (fun next => (next, []))
  | .stop => some ({ session with handler := .stopped }, [])
  | .egressRecv => match session.egress, session.egressQueue with
      | none, message :: egressQueue =>
          if session.handler = .stopped then none
          else some ({ session with egressQueue, egress := some message }, [])
      | _, _ => none
  | .writeMessage => match session.egress with
      | some message =>
          if session.handler = .stopped then none
          else some ({ session with egress := none, sent := session.sent ++ [message] }, [])
      | none => none
  | .readMessage => match session.ingress, session.received with
      | none, message :: received =>
          if session.handler = .stopped then none
          else some ({ session with received, ingress := some message }, [])
      | _, _ => none
  | .ingressSend => match session.ingress with
      | some message =>
          if session.handler = .stopped then none
          else if session.ingressQueue.length < queueSize then some ({ session with
            ingress := none, ingressQueue := session.ingressQueue ++ [message] }, [])
          else none
      | none => none
  | .hear message => match session.sent with
      | first :: sent => if first = message then some ({ session with sent }, []) else none
      | [] => none
  | .say message => some ({ session with received := session.received ++ [message] }, [])

def run (format : BlockFormat) (session : PeerSession) :
    List SessionMove → Option (PeerSession × List CallResult)
  | [] => some (session, [])
  | move :: moves => match session.step format move with
      | none => none
      | some (next, returned) => (next.run format moves).map (fun (finish, later) =>
          (finish, returned ++ later))

end PeerSession

end Symphony
