import Symphony.Proof.SessionFetch

/-! What the moves of a fetch over a session cost. -/

namespace Symphony

def NetworkMessage.replies : NetworkMessage → Nat
  | .version => 2
  | .getHeaders _ => 1
  | .getData hashes => hashes.length
  | _ => 0

def NetworkMessage.weight (message : NetworkMessage) : Nat := 1 + 8 * message.replies

def PeerHandler.weight : PeerHandler → Nat
  | .sending message => message.weight + 3
  | .relayingHeaders _ => 2
  | .relayingBlock _ => 2
  | _ => 0

def PeerSession.left (session : PeerSession) : Nat :=
  (session.requestQueue.map (fun request => request.message.weight + 4)).sum +
    session.handler.weight + (session.egressQueue.map (fun message => message.weight + 2)).sum +
    (session.egress.toList.map (fun message => message.weight + 1)).sum +
    (session.sent.map NetworkMessage.weight).sum + 7 * session.received.length +
    6 * session.ingress.toList.length + 5 * session.ingressQueue.length +
    session.headersQueue.length + session.blocksQueue.length

def Client.toCome (request : Request) : Client → Nat
  | .requesting _ => request.message.weight + 6
  | .awaitingHeaders _ => 1
  | .awaitingBlocks _ _ => 1
  | _ => request.message.weight + 7

theorem Client.toCome_pos (client : Client) (request : Request) : 0 < client.toCome request := by
  cases client with
  | requesting other => exact Nat.succ_pos _
  | awaitingHeaders intersects => exact Nat.one_pos
  | awaitingBlocks hashes blocks => exact Nat.one_pos
  | connecting => exact Nat.succ_pos _
  | idle => exact Nat.succ_pos _

theorem Client.toCome_idle {client : Client} (idle : client.request = none) (request : Request) :
    client.toCome request = request.message.weight + 7 := by
  cases client with
  | connecting => rfl
  | idle => rfl
  | _ => cases idle

def SessionMove.progress : SessionMove → Bool
  | .connected => false
  | .notified => false
  | .stop => false
  | _ => true

namespace PeerSession

variable {format : BlockFormat} {session next : PeerSession} {results : List CallResult}

theorem left_handleRequest (step : session.step format .handleRequest = some (next, results)) :
    next.client = session.client ∧ next.left + 1 ≤ session.left := by
  rw [PeerSession.step] at step
  split at step
  · rename_i request requestQueue selecting queued
    rw [Option.some.injEq, Prod.mk.injEq] at step
    obtain ⟨rfl, rfl⟩ := step
    refine ⟨rfl, ?_⟩
    simp only [left, PeerHandler.weight, selecting, queued, List.map_cons, List.sum_cons]
    omega
  · cases step

theorem left_handleMessage (step : session.step format .handleMessage = some (next, results)) :
    next.client = session.client ∧ next.left + 1 ≤ session.left := by
  rw [PeerSession.step] at step
  split at step
  · rename_i message ingressQueue selecting queued
    rw [Option.some.injEq, Prod.mk.injEq] at step
    obtain ⟨rfl, rfl⟩ := step
    cases message with
    | inv inventory =>
        rw [handleMessage]
        split
        · refine ⟨rfl, ?_⟩
          simp only [left, PeerHandler.weight, selecting, queued, List.length_cons]
          omega
        · refine ⟨rfl, ?_⟩
          simp only [left, PeerHandler.weight, selecting, queued, List.length_cons]
          omega
    | _ =>
        refine ⟨rfl, ?_⟩
        simp only [left, handleMessage, PeerHandler.weight, NetworkMessage.weight,
          NetworkMessage.replies, selecting, queued, List.length_cons]
        omega
  · cases step

theorem left_relay (step : session.step format .relay = some (next, results)) :
    next.client = session.client ∧ next.left + 1 ≤ session.left := by
  rw [PeerSession.step, Option.map_eq_some_iff] at step
  obtain ⟨relayed, relays, same⟩ := step
  rw [Prod.mk.injEq] at same
  obtain ⟨rfl, rfl⟩ := same
  rw [relay] at relays
  cases handler : session.handler with
  | selecting =>
      rw [handler] at relays
      cases relays
  | stopped =>
      rw [handler] at relays
      cases relays
  | sending message =>
      simp only [handler, Option.ite_none_right_eq_some, Option.some.injEq] at relays
      obtain ⟨_, rfl⟩ := relays
      refine ⟨rfl, ?_⟩
      simp only [left, PeerHandler.weight, handler, List.map_append, List.sum_append, List.map_cons,
        List.map_nil, List.sum_cons, List.sum_nil]
      omega
  | relayingHeaders headers =>
      simp only [handler, Option.ite_none_right_eq_some, Option.some.injEq] at relays
      obtain ⟨_, rfl⟩ := relays
      refine ⟨rfl, ?_⟩
      simp only [left, PeerHandler.weight, handler, List.length_append, List.length_singleton]
      omega
  | relayingBlock raw =>
      simp only [handler, Option.ite_none_right_eq_some, Option.some.injEq] at relays
      obtain ⟨_, rfl⟩ := relays
      refine ⟨rfl, ?_⟩
      simp only [left, PeerHandler.weight, handler, List.length_append, List.length_singleton]
      omega

theorem left_egressRecv (step : session.step format .egressRecv = some (next, results)) :
    next.client = session.client ∧ next.left + 1 ≤ session.left := by
  rw [PeerSession.step] at step
  split at step
  · rename_i message egressQueue free queued
    rw [Option.ite_none_left_eq_some, Option.some.injEq, Prod.mk.injEq] at step
    obtain ⟨running, rfl, rfl⟩ := step
    refine ⟨rfl, ?_⟩
    simp only [left, free, queued, Option.toList_some, Option.toList_none, List.map_cons, List.map_nil,
      List.sum_cons, List.sum_nil]
    omega
  · cases step

theorem left_writeMessage (step : session.step format .writeMessage = some (next, results)) :
    next.client = session.client ∧ next.left + 1 ≤ session.left := by
  rw [PeerSession.step] at step
  split at step
  · rename_i message held
    rw [Option.ite_none_left_eq_some, Option.some.injEq, Prod.mk.injEq] at step
    obtain ⟨running, rfl, rfl⟩ := step
    refine ⟨rfl, ?_⟩
    simp only [left, held, Option.toList_some, Option.toList_none, List.map_append, List.sum_append,
      List.map_cons, List.map_nil, List.sum_cons, List.sum_nil]
    omega
  · cases step

theorem left_readMessage (step : session.step format .readMessage = some (next, results)) :
    next.client = session.client ∧ next.left + 1 ≤ session.left := by
  rw [PeerSession.step] at step
  split at step
  · rename_i message received free queued
    rw [Option.ite_none_left_eq_some, Option.some.injEq, Prod.mk.injEq] at step
    obtain ⟨running, rfl, rfl⟩ := step
    refine ⟨rfl, ?_⟩
    simp only [left, free, queued, Option.toList_some, Option.toList_none, List.length_cons,
      List.length_nil]
    omega
  · cases step

theorem left_ingressSend (step : session.step format .ingressSend = some (next, results)) :
    next.client = session.client ∧ next.left + 1 ≤ session.left := by
  rw [PeerSession.step] at step
  split at step
  · rename_i message held
    rw [Option.ite_none_left_eq_some, Option.ite_none_right_eq_some, Option.some.injEq,
      Prod.mk.injEq] at step
    obtain ⟨running, room, rfl, rfl⟩ := step
    refine ⟨rfl, ?_⟩
    simp only [left, held, Option.toList_some, Option.toList_none, List.length_append,
      List.length_singleton, List.length_nil]
    omega
  · cases step

theorem left_submit {request : Request} (requesting : session.client = .requesting request)
    (step : session.submit request = some (next, results)) :
    next.left + next.client.toCome request + 1 ≤ session.left + session.client.toCome request ∨
      results ≠ [] ∧ next.left = session.left := by
  rw [requesting]
  unfold PeerSession.submit at step
  split at step
  · apply Or.inr
    cases request with
    | newHeaders intersects =>
        rw [Option.some.injEq, Prod.mk.injEq] at step
        obtain ⟨rfl, rfl⟩ := step
        exact ⟨List.cons_ne_nil _ _, rfl⟩
    | blocks hashes =>
        rw [Option.some.injEq, Prod.mk.injEq] at step
        obtain ⟨rfl, rfl⟩ := step
        exact ⟨List.cons_ne_nil _ _, rfl⟩
  · rw [Option.ite_none_right_eq_some, Option.some.injEq, Prod.mk.injEq] at step
    obtain ⟨room, rfl, rfl⟩ := step
    apply Or.inl
    cases request with
    | newHeaders intersects =>
        simp only [left, Client.toCome, List.map_append, List.sum_append, List.map_cons, List.map_nil,
          List.sum_cons, List.sum_nil]
        omega
    | blocks hashes =>
        simp only [left, Client.toCome, List.map_append, List.sum_append, List.map_cons, List.map_nil,
          List.sum_cons, List.sum_nil]
        omega

theorem left_recv (step : session.step format .recv = some (next, results)) :
    next.left + 1 ≤ session.left ∧ (∃ hashes before after,
        session.client = .awaitingBlocks hashes before ∧ next.client = .awaitingBlocks hashes after) ∨
      results ≠ [] ∧ next.left ≤ session.left := by
  rw [PeerSession.step] at step
  split at step
  · apply Or.inr
    unfold recvHeaders at step
    split at step
    · rename_i headers headersQueue queued
      rw [Option.some.injEq, Prod.mk.injEq] at step
      obtain ⟨rfl, rfl⟩ := step
      refine ⟨List.cons_ne_nil _ _, ?_⟩
      simp only [left, queued, List.length_cons]
      omega
    · rw [Option.ite_none_right_eq_some, Option.some.injEq, Prod.mk.injEq] at step
      obtain ⟨stopped, rfl, rfl⟩ := step
      exact ⟨List.cons_ne_nil _ _, Nat.le_refl _⟩
  · rename_i hashes blocks awaiting
    unfold recvBlock at step
    split at step
    · rw [Option.some.injEq, Prod.mk.injEq] at step
      obtain ⟨rfl, rfl⟩ := step
      exact Or.inr ⟨List.cons_ne_nil _ _, Nat.le_refl _⟩
    · split at step
      · rename_i raw blocksQueue queued
        rw [Option.some.injEq, Prod.mk.injEq] at step
        obtain ⟨rfl, rfl⟩ := step
        refine Or.inl ⟨?_, hashes, blocks, _, awaiting, rfl⟩
        simp only [left, queued, List.length_cons]
        omega
      · rw [Option.ite_none_right_eq_some, Option.some.injEq, Prod.mk.injEq] at step
        obtain ⟨stopped, rfl, rfl⟩ := step
        exact Or.inr ⟨List.cons_ne_nil _ _, Nat.le_refl _⟩
  · cases step

theorem step_left {move : SessionMove} {request : Request}
    (step : session.step format move = some (next, results)) (own : move.own)
    (agrees : session.client.request = none ∨ session.client.request = some request)
    (asked : ∀ other, move = .call other → other = request) :
    next.left + next.client.toCome request + move.progress.toNat ≤
        session.left + session.client.toCome request ∨
      results ≠ [] ∧ next.left + 1 ≤ session.left + session.client.toCome request := by
  have positive := session.client.toCome_pos request
  have task (kept : next.client = session.client ∧ next.left + 1 ≤ session.left) :
      next.left + next.client.toCome request + 1 ≤ session.left + session.client.toCome request := by
    rw [kept.1]
    omega
  cases move with
  | connected =>
      rw [PeerSession.step, Option.ite_none_right_eq_some, Option.some.injEq, Prod.mk.injEq] at step
      obtain ⟨waits, rfl, rfl⟩ := step
      apply Or.inl
      rw [waits.1]
      exact Nat.le_refl _
  | notified =>
      rw [PeerSession.step, Option.ite_none_right_eq_some, Option.some.injEq, Prod.mk.injEq] at step
      obtain ⟨waits, rfl, rfl⟩ := step
      exact Or.inl (Nat.le_refl _)
  | call other =>
      rw [PeerSession.step, Option.ite_none_right_eq_some, Option.some.injEq, Prod.mk.injEq] at step
      obtain ⟨idle, rfl, rfl⟩ := step
      apply Or.inl
      rw [idle, asked other rfl]
      exact Nat.le_refl _
  | submit other =>
      rw [PeerSession.step, Option.ite_none_right_eq_some] at step
      obtain ⟨requesting, step⟩ := step
      rw [requesting] at agrees
      have same : other = request := Option.some.inj (agrees.resolve_left (Option.some_ne_none _))
      subst same
      cases left_submit requesting step with
      | inl submitted => exact Or.inl submitted
      | inr refused =>
          refine Or.inr ⟨refused.1, ?_⟩
          rw [refused.2]
          exact Nat.add_le_add_left positive _
  | recv =>
      cases left_recv step with
      | inl taken =>
          obtain ⟨less, hashes, collected, more, awaiting, awaits⟩ := taken
          apply Or.inl
          rw [awaiting, awaits, Client.toCome, Client.toCome]
          exact Nat.add_le_add_right less 1
      | inr returned => exact Or.inr ⟨returned.1, Nat.add_le_add returned.2 positive⟩
  | stop =>
      rw [PeerSession.step, Option.some.injEq, Prod.mk.injEq] at step
      obtain ⟨rfl, rfl⟩ := step
      apply Or.inl
      simp only [left, PeerHandler.weight, SessionMove.progress, Bool.toNat_false]
      omega
  | handleRequest => exact Or.inl (task (left_handleRequest step))
  | handleMessage => exact Or.inl (task (left_handleMessage step))
  | relay => exact Or.inl (task (left_relay step))
  | egressRecv => exact Or.inl (task (left_egressRecv step))
  | writeMessage => exact Or.inl (task (left_writeMessage step))
  | readMessage => exact Or.inl (task (left_readMessage step))
  | ingressSend => exact Or.inl (task (left_ingressSend step))
  | hear message => cases own
  | say message => cases own

theorem left_hear {message : NetworkMessage}
    (step : session.step format (.hear message) = some (next, results)) :
    next.left + message.weight = session.left := by
  rw [PeerSession.step] at step
  split at step
  · rename_i first sent queued
    rw [Option.ite_none_right_eq_some, Option.some.injEq, Prod.mk.injEq] at step
    obtain ⟨rfl, rfl, rfl⟩ := step
    simp only [left, queued, List.map_cons, List.sum_cons]
    omega
  · cases step

theorem left_say {message : DecodedMessage}
    (step : session.step format (.say message) = some (next, results)) :
    next.left = session.left + 7 := by
  rw [PeerSession.step, Option.some.injEq, Prod.mk.injEq] at step
  obtain ⟨rfl, rfl⟩ := step
  simp only [left, List.length_append, List.length_singleton]
  omega

end PeerSession

theorem length_answers (node : HonestNode) (peer : Peer) (message : NetworkMessage) :
    (node.answers peer message).length ≤ message.replies := by
  cases message with
  | getData hashes =>
      rw [HonestNode.answers, List.length_map]
      exact length_blocksFor hashes
  | _ => exact Nat.le_refl _

namespace TalkMove

def progress : TalkMove → Bool
  | .session move => move.progress
  | .hear => true
  | .answer => true
  | .volunteer _ => false
  | .chain _ => false

/-- What the node sends of its own has to be taken in as well, and may be answered. -/
def extra : TalkMove → Nat
  | .volunteer _ => 7
  | _ => 0

end TalkMove

namespace FetchTalk

variable {node : HonestNode} {worker : PullWorker} {reads : Reads} {peers : List Peer}
variable {state next finish : FetchTalk} {move : TalkMove} {moves : List TalkMove}

/-- The moves that the calls of a fetch still take; the blocks are at most a page. -/
def toCome (node : HonestNode) (worker : PullWorker) (client : Client) : Fetch → Nat
  | .askHeaders => client.toCome (.newHeaders (worker.cursor.map Point.hash)) +
      (8 + 8 * node.stage.blockPageSize)
  | .askBlocks _ headers => client.toCome (.blocks (headers.map node.format.blockHash))
  | .ended _ => 0

def left (node : HonestNode) (worker : PullWorker) (state : FetchTalk) : Nat :=
  state.talk.session.left + 8 * state.talk.owed.length +
    toCome node worker state.talk.session.client state.fetch

theorem toCome_resume {fetch : Fetch} {result : CallResult} {client after : Client}
    (own : fetch.request node.format.blockHash worker = some result.request)
    (idle : after.request = none) :
    toCome node worker after (fetch.resume node.format.blockHash node.stage worker reads result) +
      client.toCome result.request ≤ toCome node worker client fetch := by
  have ended {outcome : Except WorkerError (List ChainEvent × PullWorker)} {some : Nat} :
      toCome node worker after (.ended outcome) + some = some := Nat.zero_add some
  cases fetch with
  | askHeaders =>
      cases result with
      | blocks hashes raw result => cases own
      | headers intersects result =>
          rw [Fetch.request, CallResult.request, Option.some.injEq, Request.newHeaders.injEq] at own
          subst own
          cases result with
          | error failure =>
              rw [Fetch.resume, ended]
              exact Nat.le_add_right _ _
          | ok listed =>
              cases listed with
              | nil =>
                  rw [Fetch.resume, ended]
                  exact Nat.le_add_right _ _
              | cons first later =>
                  have page := List.length_take_le node.stage.blockPageSize (first :: later)
                  have asks : after.toCome (.blocks (((first :: later).take node.stage.blockPageSize).map
                      node.format.blockHash)) ≤ 8 + 8 * node.stage.blockPageSize := by
                    rw [Client.toCome_idle idle, Request.message, NetworkMessage.weight,
                      NetworkMessage.replies, List.length_map]
                    omega
                  rw [Fetch.resume, toCome, toCome, CallResult.request, Nat.add_comm]
                  exact Nat.add_le_add_left asks _
  | askBlocks first headers =>
      cases result with
      | headers intersects result => cases own
      | blocks hashes raw result =>
          rw [Fetch.request, CallResult.request, Option.some.injEq, Request.blocks.injEq] at own
          subst own
          cases result with
          | error failure => exact ended.le
          | ok blocks => exact ended.le
  | ended outcome => cases own

theorem toCome_request {fetch : Fetch} {request : Request}
    (own : fetch.request node.format.blockHash worker = some request) :
    ∃ rest, ∀ client, toCome node worker client fetch = client.toCome request + rest := by
  cases fetch with
  | askHeaders =>
      cases own
      exact ⟨_, fun client => rfl⟩
  | askBlocks first headers =>
      cases own
      exact ⟨0, fun client => rfl⟩
  | ended outcome => cases own

theorem toCome_ended {fetch : Fetch} {client : Client}
    (ended : fetch.request node.format.blockHash worker = none) :
    toCome node worker client fetch = 0 := by
  cases fetch with
  | ended outcome => rfl
  | _ => cases ended

theorem progress_le (move : SessionMove) : move.progress.toNat ≤ 1 := Bool.toNat_le _

theorem Sound.pays_session (sound : state.Sound node worker reads peers) {move : SessionMove}
    {session : PeerSession} {results : List CallResult} (own : move.own)
    (permitted : state.permits node worker (.session move))
    (step : state.talk.session.step node.format move = some (session, results)) :
    session.left + toCome node worker session.client (results.foldl
        (Fetch.resume node.format.blockHash node.stage worker reads) state.fetch) +
      move.progress.toNat ≤
        state.talk.session.left + toCome node worker state.talk.session.client state.fetch := by
  have asked {other : Request} (calls : move = .call other) :
      state.fetch.request node.format.blockHash worker = some other := by
    subst calls
    exact of_decide_eq_true permitted
  have called := (PeerSession.exchange_step step).call_cases
  cases pending : state.fetch.request node.format.blockHash worker with
  | none =>
      have waiting : state.talk.session.client.request = none := by
        have calls := sound.calls
        rw [pending] at calls
        exact calls.elim id id
      have uncalled {goal : Prop} {other : Request} (calls : move = .call other) : goal := by
        have some := asked calls
        rw [pending] at some
        cases some
      have paid := @PeerSession.step_left _ _ _ _ _ (.blocks []) step own (Or.inl waiting)
        (fun other calls => uncalled calls)
      rw [Client.toCome_idle waiting (.blocks [])] at paid
      cases called with
      | inl quiet =>
          obtain ⟨rfl, calls⟩ := quiet
          have waits : session.client.request = none := by
            cases calls with
            | inl same => exact same.trans waiting
            | inr begun =>
                obtain ⟨other, calls, _⟩ := begun
                exact uncalled calls
          rw [Client.toCome_idle waits] at paid
          have less := paid.resolve_right (fun returned => returned.1 rfl)
          rw [List.foldl_nil, toCome_ended pending, toCome_ended pending]
          omega
      | inr returned =>
          obtain ⟨result, _, calls, _⟩ := returned
          cases waiting.symm.trans calls
  | some request =>
      have agrees := sound.calls
      rw [pending] at agrees
      have paid := PeerSession.step_left step own agrees
        (fun other calls => Option.some.inj ((asked calls).symm.trans pending))
      cases called with
      | inl quiet =>
          obtain ⟨rfl, _⟩ := quiet
          obtain ⟨rest, parts⟩ := @toCome_request node worker state.fetch request pending
          have less := paid.resolve_right (fun returned => returned.1 rfl)
          rw [List.foldl_nil, parts, parts]
          omega
      | inr returned =>
          obtain ⟨result, rfl, calls, done⟩ := returned
          have returns : state.talk.session.client.request = some result.request := calls
          rw [returns] at agrees
          have same : result.request = request :=
            Option.some.inj (agrees.resolve_left (Option.some_ne_none _))
          rw [← same] at pending paid
          have resumed := @toCome_resume node worker reads state.fetch result
            state.talk.session.client session.client pending done
          have positive := session.client.toCome_pos result.request
          have single := progress_le move
          rw [List.foldl_cons, List.foldl_nil]
          cases paid with
          | inl less => omega
          | inr less => omega

theorem Sound.pays (sound : state.Sound node worker reads peers)
    (stepped : state.step node worker reads move = some next) :
    next.left node worker + move.progress.toNat ≤ state.left node worker + move.extra := by
  obtain ⟨talk, fetch⟩ := next
  obtain ⟨permitted, results, step, resumed⟩ := step_eq stepped
  have steps : state.talk.Steps node move talk results := Talk.step_cases step
  simp only at resumed
  cases steps with
  | session own step =>
      have paid := sound.pays_session own permitted step
      rw [← resumed] at paid
      simp only [left, TalkMove.progress, TalkMove.extra]
      omega
  | @hear message session _ silent step =>
      obtain ⟨rfl, client⟩ := (PeerSession.exchange_step step).hear_client
      have same : session.client = state.talk.session.client := client
      have heard := PeerSession.left_hear step
      have few := length_answers node state.talk.peer message
      rw [NetworkMessage.weight] at heard
      rw [List.foldl_nil] at resumed
      simp only [left, TalkMove.progress, TalkMove.extra, silent, same, resumed, List.length_nil,
        Bool.toNat_true]
      omega
  | @answer message owed session _ owes step =>
      obtain ⟨rfl, client⟩ := (PeerSession.exchange_step step).say_client
      have same : session.client = state.talk.session.client := client
      have said := PeerSession.left_say step
      rw [List.foldl_nil] at resumed
      simp only [left, TalkMove.progress, TalkMove.extra, owes, same, resumed, List.length_cons,
        Bool.toNat_true]
      omega
  | @volunteer message session _ free step =>
      obtain ⟨rfl, client⟩ := (PeerSession.exchange_step step).say_client
      have same : session.client = state.talk.session.client := client
      have said := PeerSession.left_say step
      rw [List.foldl_nil] at resumed
      simp only [left, TalkMove.progress, TalkMove.extra, same, resumed, Bool.toNat_false]
      omega
  | chain keeps =>
      rw [List.foldl_nil] at resumed
      simp only [left, TalkMove.progress, TalkMove.extra, resumed, Bool.toNat_false]
      omega

end FetchTalk

end Symphony
