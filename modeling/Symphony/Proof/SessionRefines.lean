import Symphony.Lib.Carrier
import Symphony.Proof.UtxoExact
import Symphony.Spec.Exchange

/-! The tasks and channels of a session carry requests and answers like one queue for each. -/

namespace Symphony

def Client.collected : Client → List RawBlock
  | .awaitingBlocks _ blocks => blocks
  | _ => []

def PeerHandler.outgoing : PeerHandler → List NetworkMessage
  | .sending message => [message]
  | _ => []

def PeerHandler.incoming : PeerHandler → List DecodedMessage
  | .relayingHeaders headers => [.headers headers]
  | .relayingBlock raw => [.block raw]
  | _ => []

namespace PeerSession

variable {format : BlockFormat} (session : PeerSession)

def outgoing : List NetworkMessage :=
  session.sent ++ if session.handler = .stopped then [] else
    session.egress.toList ++ session.egressQueue ++ session.handler.outgoing ++
      session.requestQueue.map Request.message

def incoming : List DecodedMessage :=
  if session.handler = .stopped then [] else
    session.handler.incoming ++ session.ingressQueue ++ session.ingress.toList ++ session.received

def exchange : Exchange where
  client := session.client
  stopped := session.handler = .stopped
  requests := session.outgoing.flatMap NetworkMessage.requests
  headers := session.headersQueue ++ session.incoming.flatMap DecodedMessage.headersOf
  blocks := session.client.collected ++ session.blocksQueue ++
    session.incoming.flatMap DecodedMessage.blocksOf

end PeerSession

@[simp] theorem Request.requests_message (request : Request) : request.message.requests = [request] := by
  cases request with
  | newHeaders intersects => rfl
  | blocks hashes => rfl

namespace PeerSession

variable {format : BlockFormat} {session next : PeerSession} {results : List CallResult}

theorem exchange_handleRequest
    (step : session.step format .handleRequest = some (next, results)) :
    results = [] ∧ next.exchange = session.exchange := by
  rw [PeerSession.step] at step
  split at step
  · rename_i request requestQueue selecting queued
    rw [Option.some.injEq, Prod.mk.injEq] at step
    obtain ⟨rfl, rfl⟩ := step
    simp [exchange, outgoing, incoming, PeerHandler.outgoing, PeerHandler.incoming, selecting, queued]
  · cases step

theorem exchange_relay (step : session.step format .relay = some (next, results)) :
    results = [] ∧ next.exchange = session.exchange := by
  rw [PeerSession.step, Option.map_eq_some_iff] at step
  obtain ⟨relayed, relays, same⟩ := step
  rw [Prod.mk.injEq] at same
  obtain ⟨rfl, rfl⟩ := same
  refine ⟨rfl, ?_⟩
  rw [relay] at relays
  cases handler : session.handler with
  | selecting =>
      rw [handler] at relays
      cases relays
  | stopped =>
      rw [handler] at relays
      cases relays
  | sending message =>
      simp only [handler, Option.ite_none_right_eq_some, Option.some.injEq] at relays
      obtain ⟨_, rfl⟩ := relays
      simp [exchange, outgoing, incoming, PeerHandler.outgoing, PeerHandler.incoming, handler]
  | relayingHeaders headers =>
      simp only [handler, Option.ite_none_right_eq_some, Option.some.injEq] at relays
      obtain ⟨_, rfl⟩ := relays
      simp [exchange, outgoing, incoming, PeerHandler.outgoing, PeerHandler.incoming, handler,
        DecodedMessage.headersOf, DecodedMessage.blocksOf]
  | relayingBlock raw =>
      simp only [handler, Option.ite_none_right_eq_some, Option.some.injEq] at relays
      obtain ⟨_, rfl⟩ := relays
      simp [exchange, outgoing, incoming, PeerHandler.outgoing, PeerHandler.incoming, handler,
        DecodedMessage.headersOf, DecodedMessage.blocksOf]

theorem exchange_handleMessage
    (step : session.step format .handleMessage = some (next, results)) :
    results = [] ∧ next.exchange = session.exchange := by
  rw [PeerSession.step] at step
  split at step
  · rename_i message ingressQueue selecting queued
    rw [Option.some.injEq, Prod.mk.injEq] at step
    obtain ⟨rfl, rfl⟩ := step
    refine ⟨rfl, ?_⟩
    cases message with
    | inv inventory =>
        rw [handleMessage]
        split
        · simp [exchange, outgoing, incoming, PeerHandler.incoming, selecting, queued,
            DecodedMessage.headersOf, DecodedMessage.blocksOf]
        · simp [exchange, outgoing, incoming, PeerHandler.incoming, selecting, queued,
            DecodedMessage.headersOf, DecodedMessage.blocksOf]
    | _ =>
        simp [handleMessage, exchange, outgoing, incoming, PeerHandler.outgoing,
          PeerHandler.incoming, selecting, queued, NetworkMessage.requests,
          DecodedMessage.headersOf, DecodedMessage.blocksOf]
  · cases step

theorem exchange_egressRecv (step : session.step format .egressRecv = some (next, results)) :
    results = [] ∧ next.exchange = session.exchange := by
  rw [PeerSession.step] at step
  split at step
  · rename_i message egressQueue free queued
    split at step
    · cases step
    · rename_i running
      rw [Option.some.injEq, Prod.mk.injEq] at step
      obtain ⟨rfl, rfl⟩ := step
      simp [exchange, outgoing, incoming, free, queued, running]
  · cases step

theorem exchange_writeMessage (step : session.step format .writeMessage = some (next, results)) :
    results = [] ∧ next.exchange = session.exchange := by
  rw [PeerSession.step] at step
  split at step
  · rename_i message held
    split at step
    · cases step
    · rename_i running
      rw [Option.some.injEq, Prod.mk.injEq] at step
      obtain ⟨rfl, rfl⟩ := step
      simp [exchange, outgoing, incoming, held, running]
  · cases step

theorem exchange_readMessage (step : session.step format .readMessage = some (next, results)) :
    results = [] ∧ next.exchange = session.exchange := by
  rw [PeerSession.step] at step
  split at step
  · rename_i message received free queued
    split at step
    · cases step
    · rename_i running
      rw [Option.some.injEq, Prod.mk.injEq] at step
      obtain ⟨rfl, rfl⟩ := step
      simp [exchange, outgoing, incoming, free, queued, running]
  · cases step

theorem exchange_ingressSend (step : session.step format .ingressSend = some (next, results)) :
    results = [] ∧ next.exchange = session.exchange := by
  rw [PeerSession.step] at step
  split at step
  · rename_i message held
    split at step
    · cases step
    · rename_i running
      split at step
      · rw [Option.some.injEq, Prod.mk.injEq] at step
        obtain ⟨rfl, rfl⟩ := step
        simp [exchange, outgoing, incoming, held, running]
      · cases step
  · cases step

theorem exchange_submit {request : Request}
    (step : session.step format (.submit request) = some (next, results)) :
    Exchange.Step format session.exchange (.submit request) results next.exchange := by
  rw [PeerSession.step] at step
  split at step
  · rename_i requesting
    unfold PeerSession.submit at step
    split at step
    · rename_i stopped
      have refused : results = [request.refused] ∧ next = { session with client := .idle } := by
        cases request with
        | newHeaders intersects =>
            simp only [Option.some.injEq, Prod.mk.injEq] at step
            exact ⟨step.2.symm, step.1.symm⟩
        | blocks hashes =>
            simp only [Option.some.injEq, Prod.mk.injEq] at step
            exact ⟨step.2.symm, step.1.symm⟩
      obtain ⟨rfl, rfl⟩ := refused
      have same : ({ session with client := .idle } : PeerSession).exchange =
          { session.exchange with client := .idle } := by
        simp [exchange, outgoing, incoming, requesting, Client.collected]
      rw [same]
      exact .refused (by simp [exchange, stopped]) requesting
    · rename_i running
      split at step
      · rw [Option.some.injEq, Prod.mk.injEq] at step
        obtain ⟨rfl, rfl⟩ := step
        have same : ({ session with
            requestQueue := session.requestQueue ++ [request]
            client := request.waiting } : PeerSession).exchange =
              { session.exchange with
                client := request.waiting
                requests := session.exchange.requests ++ [request] } := by
          cases request with
          | newHeaders intersects =>
              simp [exchange, outgoing, incoming, running, requesting, Client.collected,
                Request.waiting]
          | blocks hashes =>
              simp [exchange, outgoing, incoming, running, requesting, Client.collected,
                Request.waiting]
        have waits := @Exchange.Step.submit format session.exchange request
          (by simp [exchange, running]) requesting
        rw [← same] at waits
        cases request with
        | newHeaders intersects => exact waits
        | blocks hashes => exact waits
      · cases step
  · cases step

theorem exchange_recvHeaders {intersects : List BlockHash}
    (awaiting : session.client = .awaitingHeaders intersects)
    (step : session.recvHeaders intersects = some (next, results)) :
    Exchange.Step format session.exchange .recv results next.exchange := by
  unfold recvHeaders at step
  split at step
  · rename_i headers headersQueue queued
    rw [Option.some.injEq, Prod.mk.injEq] at step
    obtain ⟨rfl, rfl⟩ := step
    have same : ({ session with headersQueue, client := .idle } : PeerSession).exchange =
        { session.exchange with
          client := .idle
          headers := headersQueue ++ session.incoming.flatMap DecodedMessage.headersOf } := by
      simp [exchange, outgoing, incoming, awaiting, Client.collected]
    rw [same]
    apply Exchange.Step.headers awaiting
    simp [exchange, queued]
  · rename_i queued
    split at step
    · rename_i stopped
      rw [Option.some.injEq, Prod.mk.injEq] at step
      obtain ⟨rfl, rfl⟩ := step
      have same : ({ session with client := .idle } : PeerSession).exchange =
          { session.exchange with client := .idle } := by
        simp [exchange, outgoing, incoming, awaiting, stopped, Client.collected]
      rw [same]
      apply Exchange.Step.headersClosed (by simp [exchange, stopped]) awaiting
      simp [exchange, incoming, queued, stopped]
    · cases step

theorem exchange_recvBlock {hashes : List BlockHash} {blocks : List RawBlock}
    (awaiting : session.client = .awaitingBlocks hashes blocks)
    (step : session.recvBlock format hashes blocks = some (next, results)) :
    Exchange.Step format session.exchange .recv results next.exchange := by
  have collected : session.exchange.blocks = blocks ++ (session.blocksQueue ++
      session.incoming.flatMap DecodedMessage.blocksOf) := by
    simp [exchange, awaiting, Client.collected]
  unfold recvBlock at step
  split at step
  · rename_i all
    rw [Option.some.injEq, Prod.mk.injEq] at step
    obtain ⟨rfl, rfl⟩ := step
    have same : ({ session with client := .idle } : PeerSession).exchange =
        { session.exchange with
          client := .idle
          blocks := session.blocksQueue ++ session.incoming.flatMap DecodedMessage.blocksOf } := by
      simp [exchange, outgoing, incoming, awaiting, Client.collected]
    rw [same]
    exact .checked awaiting collected all
  · rename_i few
    split at step
    · rename_i raw blocksQueue queued
      rw [Option.some.injEq, Prod.mk.injEq] at step
      obtain ⟨rfl, rfl⟩ := step
      have same : ({ session with
          blocksQueue, client := .awaitingBlocks hashes (blocks ++ [raw]) } : PeerSession).exchange =
            { session.exchange with client := .awaitingBlocks hashes (blocks ++ [raw]) } := by
        simp [exchange, outgoing, incoming, awaiting, queued, Client.collected]
      rw [same]
      rw [queued] at collected
      exact .block awaiting collected few
    · rename_i queued
      split at step
      · rename_i stopped
        rw [Option.some.injEq, Prod.mk.injEq] at step
        obtain ⟨rfl, rfl⟩ := step
        have same : ({ session with client := .idle } : PeerSession).exchange =
            { session.exchange with client := .idle, blocks := [] } := by
          simp [exchange, outgoing, incoming, awaiting, queued, stopped, Client.collected]
        rw [same]
        apply Exchange.Step.blocksClosed (by simp [exchange, stopped]) awaiting
        rw [collected, queued, incoming, if_pos stopped]
        simp
      · cases step

theorem exchange_stop : Exchange.Step format session.exchange .stop []
    { session with handler := .stopped : PeerSession }.exchange := by
  apply Exchange.Step.stop
  · rfl
  · simp [exchange]
  · simp only [exchange, outgoing, if_true, List.append_nil, List.flatMap_append]
    exact List.prefix_append _ _
  · simp only [exchange, incoming, if_true, List.flatMap_nil, List.append_nil]
    exact List.prefix_append _ _
  · simp only [exchange, incoming, if_true, List.flatMap_nil, List.append_nil]
    exact List.prefix_append _ _

theorem exchange_step {move : SessionMove} (step : session.step format move = some (next, results)) :
    Exchange.Step format session.exchange move results next.exchange := by
  have quiet {other : SessionMove} (submitted : other.submitted = []) (heard : other.heard = [])
      (headers : other.saidHeaders = []) (blocks : other.saidBlocks = [])
      (same : results = [] ∧ next.exchange = session.exchange) :
      Exchange.Step format session.exchange other results next.exchange := by
    rw [same.1, same.2]
    exact .quiet submitted heard (Or.inl headers) (Or.inl blocks)
  cases move with
  | submit request => exact exchange_submit step
  | handleRequest => exact quiet rfl rfl rfl rfl (exchange_handleRequest step)
  | handleMessage => exact quiet rfl rfl rfl rfl (exchange_handleMessage step)
  | relay => exact quiet rfl rfl rfl rfl (exchange_relay step)
  | egressRecv => exact quiet rfl rfl rfl rfl (exchange_egressRecv step)
  | writeMessage => exact quiet rfl rfl rfl rfl (exchange_writeMessage step)
  | readMessage => exact quiet rfl rfl rfl rfl (exchange_readMessage step)
  | ingressSend => exact quiet rfl rfl rfl rfl (exchange_ingressSend step)
  | connected =>
      simp only [PeerSession.step, Option.ite_none_right_eq_some, Option.some.injEq,
        Prod.mk.injEq] at step
      obtain ⟨⟨connecting, _⟩, rfl, rfl⟩ := step
      have same : ({ session with client := .idle, initNotified := false } : PeerSession).exchange =
          { session.exchange with client := .idle } := by
        simp [exchange, outgoing, incoming, connecting, Client.collected]
      rw [same]
      exact .connected connecting
  | notified =>
      simp only [PeerSession.step, Option.ite_none_right_eq_some, Option.some.injEq,
        Prod.mk.injEq] at step
      obtain ⟨_, rfl, rfl⟩ := step
      exact quiet rfl rfl rfl rfl ⟨rfl, rfl⟩
  | call request =>
      simp only [PeerSession.step, Option.ite_none_right_eq_some, Option.some.injEq,
        Prod.mk.injEq] at step
      obtain ⟨idle, rfl, rfl⟩ := step
      have same : ({ session with client := .requesting request } : PeerSession).exchange =
          { session.exchange with client := .requesting request } := by
        simp [exchange, outgoing, incoming, idle, Client.collected]
      rw [same]
      exact .call idle
  | recv =>
      rw [PeerSession.step] at step
      split at step
      · rename_i intersects awaiting
        exact exchange_recvHeaders awaiting step
      · rename_i hashes blocks awaiting
        exact exchange_recvBlock awaiting step
      · cases step
  | stop =>
      rw [PeerSession.step, Option.some.injEq, Prod.mk.injEq] at step
      obtain ⟨rfl, rfl⟩ := step
      exact exchange_stop
  | hear message =>
      rw [PeerSession.step] at step
      split at step
      · rename_i first sent streamed
        simp only [Option.ite_none_right_eq_some, Option.some.injEq, Prod.mk.injEq] at step
        obtain ⟨rfl, rfl, rfl⟩ := step
        apply Exchange.Step.hear
        simp [exchange, outgoing, streamed]
      · cases step
  | say message =>
      rw [PeerSession.step, Option.some.injEq, Prod.mk.injEq] at step
      obtain ⟨rfl, rfl⟩ := step
      by_cases stopped : session.handler = .stopped
      · have same : ({ session with received := session.received ++ [message] } : PeerSession).exchange =
            session.exchange := by
          simp [exchange, outgoing, incoming, stopped]
        have ended : session.exchange.stopped := by
          simp [exchange, stopped]
        rw [same]
        exact .quiet rfl rfl (Or.inr ended) (Or.inr ended)
      · have same : ({ session with received := session.received ++ [message] } : PeerSession).exchange =
            { session.exchange with
              headers := session.exchange.headers ++ message.headersOf
              blocks := session.exchange.blocks ++ message.blocksOf } := by
          simp [exchange, outgoing, incoming, stopped]
        rw [same]
        exact .say (by simp [exchange, stopped])

theorem exchange_run {moves : List SessionMove} (run : session.run format moves = some (next, results)) :
    Exchange.Run format session.exchange moves results next.exchange := by
  induction moves generalizing session results with
  | nil =>
      rw [PeerSession.run, Option.some.injEq, Prod.mk.injEq] at run
      obtain ⟨rfl, rfl⟩ := run
      exact .nil _
  | cons move moves ih =>
      rw [PeerSession.run] at run
      cases step : session.step format move with
      | none =>
          rw [step] at run
          cases run
      | some stepped =>
          obtain ⟨middle, returned⟩ := stepped
          simp only [step, Option.map_eq_some_iff] at run
          obtain ⟨⟨finish, later⟩, rest, same⟩ := run
          rw [Prod.mk.injEq] at same
          obtain ⟨rfl, rfl⟩ := same
          exact .cons (exchange_step step) (ih rest)

end PeerSession

namespace Exchange

open Carrier (Transit)

variable {format : BlockFormat} {before after : Exchange} {move : SessionMove}
variable {moves : List SessionMove} {results : List CallResult}

theorem Step.transit_headers (step : Step format before move results after) :
    Transit before.stopped after.stopped before.headers move.saidHeaders
      (results.flatMap CallResult.headersOf) after.headers := by
  cases step with
  | quiet submitted heard headers blocks =>
      cases headers with
      | inl silent =>
          rw [silent]
          exact .refl _ _
      | inr stopped => exact .refuse stopped _ _
  | refused stopped requesting =>
      rename_i request
      cases request with
      | newHeaders intersects => exact .refl _ _
      | blocks hashes => exact .refl _ _
  | @headers intersects first rest awaiting next =>
      rw [next]
      exact .give _ [first] rest
  | stop same stopped requests headers blocks => exact .lose stopped headers
  | say running => exact .take (by simp [running]) _ _
  | _ => exact .refl _ _

theorem Step.transit_blocks (step : Step format before move results after) :
    Transit before.stopped after.stopped before.blocks move.saidBlocks
      (results.flatMap CallResult.blocksOf) after.blocks := by
  cases step with
  | quiet submitted heard headers blocks =>
      cases blocks with
      | inl silent =>
          rw [silent]
          exact .refl _ _
      | inr stopped => exact .refuse stopped _ _
  | refused stopped requesting =>
      rename_i request
      cases request with
      | newHeaders intersects => exact .refl _ _
      | blocks hashes => exact .refl _ _
  | checked awaiting taken all =>
      rw [taken, List.flatMap_singleton]
      exact .give _ _ _
  | @blocksClosed hashes blocks stopped awaiting none =>
      have given := Transit.give (before.stopped = true) blocks []
      rw [List.append_nil] at given
      rw [none, List.flatMap_singleton]
      exact given
  | stop same stopped requests headers blocks => exact .lose stopped blocks
  | say running => exact .take (by simp [running]) _ _
  | _ => exact .refl _ _

theorem Step.transit_requests (step : Step format before move results after) :
    Transit before.stopped after.stopped before.requests move.submitted move.heard after.requests := by
  cases step with
  | quiet submitted heard headers blocks =>
      rw [submitted, heard]
      exact .refl _ _
  | submit running requesting => exact .take (by simp [running]) _ _
  | refused stopped requesting => exact .refuse stopped _ _
  | hear next =>
      rw [next]
      exact .give _ _ _
  | stop same stopped requests headers blocks => exact .lose stopped requests
  | _ => exact .refl _ _

structure Carried (before : Exchange) (moves : List SessionMove) (results : List CallResult)
    (after : Exchange) : Prop where
  headers : Transit before.stopped after.stopped before.headers (moves.flatMap SessionMove.saidHeaders)
    (results.flatMap CallResult.headersOf) after.headers
  blocks : Transit before.stopped after.stopped before.blocks (moves.flatMap SessionMove.saidBlocks)
    (results.flatMap CallResult.blocksOf) after.blocks
  requests : Transit before.stopped after.stopped before.requests (moves.flatMap SessionMove.submitted)
    (moves.flatMap SessionMove.heard) after.requests

theorem Run.carried (run : Run format before moves results after) :
    Carried before moves results after := by
  induction run with
  | nil exchange => exact ⟨.refl _ _, .refl _ _, .refl _ _⟩
  | cons step run ih =>
      constructor
      · rw [List.flatMap_cons, List.flatMap_append]
        exact step.transit_headers.trans ih.headers
      · rw [List.flatMap_cons, List.flatMap_append]
        exact step.transit_blocks.trans ih.blocks
      · rw [List.flatMap_cons, List.flatMap_cons]
        exact step.transit_requests.trans ih.requests

end Exchange

/-- Blocks that a call returns are the ones it has taken, and those it asked for in their order. -/
def CallResult.Checked (format : BlockFormat) : CallResult → Prop
  | .blocks hashes raw (.ok listed) => raw.map format.decode = listed.map some ∧
      listed.map (fun block => format.blockHash block.header) = hashes
  | _ => True

theorem checkBlocks_ok {format : BlockFormat} {hashes : List BlockHash} {raw : List RawBlock}
    {blocks : List NodeBlock} (all : raw.length = hashes.length)
    (checked : checkBlocks format hashes raw = .ok blocks) :
    raw.map format.decode = blocks.map some ∧
      blocks.map (fun block => format.blockHash block.header) = hashes := by
  induction hashes generalizing raw blocks with
  | nil =>
      rw [List.length_nil, List.length_eq_zero_iff] at all
      subst all
      cases checked
      exact ⟨rfl, rfl⟩
  | cons hash hashes ih =>
      cases raw with
      | nil => cases all
      | cons first raw =>
          rw [checkBlocks] at checked
          cases decoded : format.decode first with
          | none =>
              simp only [decoded] at checked
              cases checked
          | some block =>
              simp only [decoded] at checked
              split at checked
              · rename_i hashed
                cases rest : checkBlocks format hashes raw with
                | error failure =>
                    rw [rest] at checked
                    cases checked
                | ok others =>
                    rw [rest, Except.map, Except.ok.injEq] at checked
                    obtain ⟨decoding, hashing⟩ := ih (Nat.succ.inj all) rest
                    rw [← checked]
                    exact ⟨by rw [List.map_cons, decoded, decoding, List.map_cons],
                      by rw [List.map_cons, hashed, hashing]⟩
              · cases checked

theorem Exchange.Step.checkedResults {format : BlockFormat} {before after : Exchange}
    {move : SessionMove} {results : List CallResult} (step : Step format before move results after) :
    ∀ result ∈ results, result.Checked format := by
  intro result member
  cases step with
  | checked awaiting taken all =>
      rename_i hashes blocks rest
      rw [List.mem_singleton] at member
      subst member
      cases found : checkBlocks format hashes blocks with
      | error failure => trivial
      | ok listed => exact checkBlocks_ok all found
  | refused stopped requesting =>
      rename_i request
      rw [List.mem_singleton] at member
      subst member
      cases request with
      | newHeaders intersects => trivial
      | blocks hashes => trivial
  | headers awaiting next =>
      rw [List.mem_singleton] at member
      subst member
      trivial
  | headersClosed stopped awaiting none =>
      rw [List.mem_singleton] at member
      subst member
      trivial
  | blocksClosed stopped awaiting none =>
      rw [List.mem_singleton] at member
      subst member
      trivial
  | _ => cases member

theorem Exchange.Run.checkedResults {format : BlockFormat} {before after : Exchange}
    {moves : List SessionMove} {results : List CallResult} (run : Run format before moves results after) :
    ∀ result ∈ results, result.Checked format := by
  induction run with
  | nil exchange =>
      intro result member
      cases member
  | cons step run ih =>
      intro result member
      cases List.mem_append.mp member with
      | inl now => exact step.checkedResults result now
      | inr later => exact ih result later

/-- Whatever the node sends and however the tasks of a session take turns: the headers that the calls
return are the first that the node has sent, in that order, and so are the blocks that they take; the
node takes the requests in the order in which they are submitted. Nothing is lost or repeated on the
way, as long as the handler runs. A call that returns blocks returns those it asked for. -/
theorem session_fifo (format : BlockFormat) (moves : List SessionMove) (session : PeerSession)
    (results : List CallResult)
    (run : PeerSession.connect.run format moves = some (session, results)) :
    results.flatMap CallResult.headersOf <+: moves.flatMap SessionMove.saidHeaders ∧
    results.flatMap CallResult.blocksOf <+: moves.flatMap SessionMove.saidBlocks ∧
    moves.flatMap SessionMove.heard <+: moves.flatMap SessionMove.submitted ∧
    (session.handler ≠ .stopped →
      results.flatMap CallResult.headersOf ++ session.exchange.headers =
        moves.flatMap SessionMove.saidHeaders ∧
      results.flatMap CallResult.blocksOf ++ session.exchange.blocks =
        moves.flatMap SessionMove.saidBlocks ∧
      moves.flatMap SessionMove.heard ++ session.exchange.requests =
        moves.flatMap SessionMove.submitted) ∧
    ∀ result ∈ results, result.Checked format := by
  have refined := PeerSession.exchange_run run
  have carried := refined.carried
  refine ⟨carried.headers.left_prefix, carried.blocks.left_prefix, carried.requests.left_prefix, ?_,
    refined.checkedResults⟩
  intro running
  have whole : ¬ session.exchange.stopped = true := by
    simp [PeerSession.exchange, running]
  exact ⟨carried.headers.exact whole, carried.blocks.exact whole, carried.requests.exact whole⟩

def handshake : List SessionMove :=
  [.relay, .egressRecv, .writeMessage, .hear .version, .say .version, .say .verack, .readMessage,
    .ingressSend, .handleMessage, .readMessage, .relay, .ingressSend, .egressRecv, .writeMessage,
    .handleMessage, .hear .verack, .connected]

def callAfterPing (request : Request) (answer : DecodedMessage) : List SessionMove :=
  [.call request, .say (.ping 7), .readMessage, .ingressSend, .submit request, .handleMessage, .relay,
    .handleRequest, .egressRecv, .writeMessage, .relay, .egressRecv, .writeMessage, .hear (.pong 7),
    .hear request.message, .say answer, .readMessage, .ingressSend, .handleMessage, .relay, .recv]

def oneBlock : BlockFormat where
  blockHash := mainnetHash
  decode raw := if raw = [1] then some ⟨mainnetHeaderOne, [coinbaseOne]⟩ else none

def oneBlockMoves : List SessionMove :=
  handshake ++ callAfterPing (.newHeaders [mainnetGenesis]) (.headers [mainnetHeaderOne]) ++
    callAfterPing (.blocks [mainnetBlockOne]) (.block [1]) ++ [.recv]

theorem session_fifo_block :
    ∃ session results, PeerSession.connect.run oneBlock oneBlockMoves = some (session, results) ∧
      results = [.headers [mainnetGenesis] (.ok [mainnetHeaderOne]),
        .blocks [mainnetBlockOne] [[1]] (.ok [⟨mainnetHeaderOne, [coinbaseOne]⟩])] ∧
      results.flatMap CallResult.headersOf <+: oneBlockMoves.flatMap SessionMove.saidHeaders ∧
      results.flatMap CallResult.blocksOf <+: oneBlockMoves.flatMap SessionMove.saidBlocks ∧
      oneBlockMoves.flatMap SessionMove.heard <+: oneBlockMoves.flatMap SessionMove.submitted ∧
      (session.handler ≠ .stopped →
        results.flatMap CallResult.headersOf ++ session.exchange.headers =
          oneBlockMoves.flatMap SessionMove.saidHeaders ∧
        results.flatMap CallResult.blocksOf ++ session.exchange.blocks =
          oneBlockMoves.flatMap SessionMove.saidBlocks ∧
        oneBlockMoves.flatMap SessionMove.heard ++ session.exchange.requests =
          oneBlockMoves.flatMap SessionMove.submitted) ∧
      ∀ result ∈ results, result.Checked oneBlock := by
  have returned : (PeerSession.connect.run oneBlock oneBlockMoves).map Prod.snd =
      some [.headers [mainnetGenesis] (.ok [mainnetHeaderOne]),
        .blocks [mainnetBlockOne] [[1]] (.ok [⟨mainnetHeaderOne, [coinbaseOne]⟩])] := by
    decide +kernel
  rw [Option.map_eq_some_iff] at returned
  obtain ⟨⟨session, results⟩, run, same⟩ := returned
  exact ⟨session, results, run, same, session_fifo oneBlock oneBlockMoves session results run⟩

end Symphony
