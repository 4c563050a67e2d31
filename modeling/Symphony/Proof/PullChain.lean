import Symphony.Proof.Locator
import Symphony.Sync.Pipeline

/-! The chain of the emitted events.

The cursor mixes the headers just processed with points of a database that may lag behind the
events. While the node has not gone back to a branch that the events have left and the database
still held, every rollback names a point of the emitted chain. -/

namespace Symphony

open Encdec

def ChainEvent.apply (event : ChainEvent) (chain : List Point) : List Point :=
  match event with
  | .rollForward point _ _ _ => point :: chain
  | .rollBack point => chain.dropWhile (fun other => other ≠ point)
  | .mempoolBlocks _ _ => chain

/-- The event goes on from the chain: one block above its top, or back to one of its points. -/
def ChainEvent.Continues (genesis : BlockHash) (chain : List Point) : ChainEvent → Prop
  | .rollForward point _ _ _ => point.height.toNat = (chainTop genesis chain).height.toNat + 1
  | .rollBack point => point ∈ chain ∨ point = ⟨0, genesis⟩
  | .mempoolBlocks _ _ => True

instance (genesis : BlockHash) (chain : List Point) (event : ChainEvent) :
    Decidable (event.Continues genesis chain) :=
  match event with
  | .rollForward .. => inferInstanceAs (Decidable (_ = _))
  | .rollBack .. => inferInstanceAs (Decidable (_ ∨ _))
  | .mempoolBlocks .. => inferInstanceAs (Decidable True)

def emittedChain (chain : List Point) (events : List ChainEvent) : List Point :=
  events.foldl (fun chain event => event.apply chain) chain

/-- Every event goes on from the chain of all events before it. -/
def Follows (genesis : BlockHash) : List Point → List ChainEvent → Prop
  | _, [] => True
  | chain, event :: events => event.Continues genesis chain ∧ Follows genesis (event.apply chain) events

instance decidableFollows (genesis : BlockHash) : (chain : List Point) → (events : List ChainEvent) →
    Decidable (Follows genesis chain events)
  | _, [] => inferInstanceAs (Decidable True)
  | chain, event :: events =>
      have := decidableFollows genesis (event.apply chain) events
      inferInstanceAs (Decidable (_ ∧ _))

theorem emittedChain_append (chain : List Point) (first second : List ChainEvent) :
    emittedChain chain (first ++ second) = emittedChain (emittedChain chain first) second :=
  List.foldl_append

theorem follows_append {genesis : BlockHash} {chain : List Point} {first second : List ChainEvent}
    (before : Follows genesis chain first)
    (after : Follows genesis (emittedChain chain first) second) :
    Follows genesis chain (first ++ second) := by
  induction first generalizing chain with
  | nil => exact after
  | cons event events ih => exact ⟨before.1, ih before.2 after⟩

section Forwards

variable (blockHash : Header → BlockHash)

theorem length_assignHeights (height : BlockHeight) (blocks : List NodeBlock) :
    (assignHeights blockHash height blocks).length = blocks.length := by
  induction blocks generalizing height with
  | nil => rfl
  | cons block blocks ih => rw [assignHeights, List.length_cons, List.length_cons, ih]

theorem assignHeights_append (height : BlockHeight) (first second : List NodeBlock) :
    assignHeights blockHash height (first ++ second) = assignHeights blockHash height first ++
      assignHeights blockHash (height + BitVec.ofNat 64 first.length) second := by
  induction first generalizing height with
  | nil =>
      have same : height + BitVec.ofNat 64 0 = height := BitVec.add_zero height
      rw [List.nil_append, List.length_nil, same, assignHeights, List.nil_append]
  | cons block blocks ih =>
      have shift : height + 1 + BitVec.ofNat 64 blocks.length =
          height + BitVec.ofNat 64 (block :: blocks).length := by
        have one : (1 : U64).toNat = 1 := rfl
        apply BitVec.eq_of_toNat_eq
        simp only [BitVec.toNat_add, BitVec.toNat_ofNat, List.length_cons, one]
        omega
      rw [List.cons_append, assignHeights, ih, shift, assignHeights, List.cons_append]

theorem emittedChain_rollForwards (chain : List Point) (height : BlockHeight) (tip : Point)
    (blocks : List NodeBlock) :
    emittedChain chain (rollForwards blockHash height tip blocks).1 =
      (assignHeights blockHash height blocks).reverse ++ chain := by
  induction blocks generalizing chain height tip with
  | nil => rfl
  | cons block blocks ih =>
      rw [assignHeights, List.reverse_cons, List.append_assoc, List.singleton_append]
      exact ih _ _ _

theorem forwardHeights (height : BlockHeight) (tip : Point) (blocks : List NodeBlock) :
    (rollForwards blockHash height tip blocks).1.filterMap ChainEvent.forwardHeight =
      (assignHeights blockHash height blocks).map Point.height := by
  induction blocks generalizing height tip with
  | nil => rfl
  | cons block blocks ih =>
      rw [assignHeights, List.map_cons, ← ih]
      rfl

theorem follows_rollForwards {genesis : BlockHash} {chain : List Point} {height : BlockHeight}
    {tip : Point} {blocks : List NodeBlock}
    (next : height.toNat = (chainTop genesis chain).height.toNat + 1)
    (room : height.toNat + blocks.length ≤ 2 ^ 64) :
    Follows genesis chain (rollForwards blockHash height tip blocks).1 := by
  induction blocks generalizing chain height tip with
  | nil => trivial
  | cons block blocks ih =>
      rw [List.length_cons] at room
      refine ⟨next, ?_⟩
      by_cases last : blocks = []
      · rw [last]
        trivial
      · have more : 0 < blocks.length := List.length_pos_iff.mpr last
        have one : (1 : U64).toNat = 1 := rfl
        apply ih
        · rw [BitVec.toNat_add, one, Nat.mod_eq_of_lt (by omega)]
          rfl
        · rw [BitVec.toNat_add, one, Nat.mod_eq_of_lt (by omega)]
          omega

end Forwards

def KnownAt (blockHash : Header → BlockHash) (known : Header → Prop) (header : Header)
    (point : Point) : Prop :=
  known header ∧ point.hash = blockHash header

instance (blockHash : Header → BlockHash) (known : Header → Prop) [DecidablePred known]
    (header : Header) : DecidablePred (KnownAt blockHash known header) :=
  fun _ => inferInstanceAs (Decidable (_ ∧ _))

/-- A node that serves a linked chain of known headers, with heights that fit. -/
structure Peer.Honest (blockHash : Header → BlockHash) (stage : PullStage) (known : Header → Prop)
    (peer : Peer) : Prop where
  linked : peer.Linked blockHash stage
  known : ∀ block ∈ peer.active, known block.header
  short : peer.active.length < 2 ^ 64

/-- The first points of the active chain, newest first. -/
def Peer.chain (blockHash : Header → BlockHash) (peer : Peer) (count : Nat) : List Point :=
  (assignHeights blockHash 1 (peer.active.take count)).reverse

section Active

variable {blockHash : Header → BlockHash} {stage : PullStage} {known : Header → Prop} {peer : Peer}

theorem Peer.length_chain {count : Nat} (inside : count ≤ peer.active.length) :
    (peer.chain blockHash count).length = count := by
  rw [Peer.chain, List.length_reverse, length_assignHeights, List.length_take, Nat.min_eq_left inside]

theorem Peer.chain_succ {count : Nat} (inside : count < peer.active.length) :
    peer.chain blockHash (count + 1) =
      ⟨1 + BitVec.ofNat 64 count, blockHash (peer.active[count]).header⟩ ::
        peer.chain blockHash count := by
  have length : (peer.active.take count).length = count := by
    rw [List.length_take]
    omega
  rw [Peer.chain, List.take_succ_eq_append_getElem inside, assignHeights_append, length,
    List.reverse_append]
  rfl

theorem Peer.chain_hash {count : Nat} (inside : count ≤ peer.active.length) :
    (peer.hashes blockHash stage)[count]? =
      some (chainTop stage.genesisHash (peer.chain blockHash count)).hash := by
  cases count with
  | zero => rfl
  | succ count =>
      rw [Peer.chain_succ inside, Peer.hashes, List.getElem?_cons_succ, List.getElem?_map,
        List.getElem?_eq_getElem inside]
      rfl

theorem Peer.Honest.chain_linked (honest : peer.Honest blockHash stage known) {count : Nat}
    (inside : count ≤ peer.active.length) :
    Symphony.Linked (KnownAt blockHash known) stage.genesisHash (peer.chain blockHash count) := by
  induction count with
  | zero => trivial
  | succ count ih =>
      have parent := congrArg (fun hashes => hashes[count]?) honest.linked.parents
      have last : count < (peer.hashes blockHash stage).length - 1 := by
        rw [Peer.hashes, List.length_cons, List.length_map]
        exact inside
      have lower : count ≤ peer.active.length := Nat.le_of_succ_le inside
      rw [List.getElem?_map, List.getElem?_eq_getElem inside, List.getElem?_dropLast, if_pos last,
        Peer.chain_hash lower, Option.map_some, Option.some.injEq] at parent
      rw [Peer.chain_succ inside]
      refine ⟨?_, ⟨_, ⟨honest.known _ (List.getElem_mem inside), rfl⟩, parent⟩, ih lower⟩
      have bound := honest.short
      have one : (1 : U64).toNat = 1 := rfl
      rw [Peer.length_chain lower, BitVec.toNat_add, one, BitVec.toNat_ofNat]
      omega

theorem Peer.Honest.part (honest : peer.Honest blockHash stage known)
    (tell : HashesTell (KnownAt blockHash known) stage.genesisHash) {point : Point}
    {below : List Point}
    (linked : Symphony.Linked (KnownAt blockHash known) stage.genesisHash (point :: below))
    (active : point.hash ∈ peer.hashes blockHash stage) :
    point.height.toNat ≤ peer.active.length ∧
      point :: below = peer.chain blockHash point.height.toNat := by
  rcases List.getElem?_of_mem active with ⟨count, found⟩
  have inside : count ≤ peer.active.length := by
    have bound := (List.getElem?_eq_some_iff.mp found).1
    rw [Peer.hashes, List.length_cons, List.length_map] at bound
    omega
  have hash := @Peer.chain_hash blockHash stage _ _ inside
  rw [found, Option.some.injEq] at hash
  have same := linked.eq_of_hash tell (honest.chain_linked inside) hash
  have height : point.height.toNat = count := by
    rw [linked.1, ← List.length_cons, same, Peer.length_chain inside]
  rw [height]
  exact ⟨inside, same⟩

theorem Peer.chain_page {height : BlockHeight} {blocks : List NodeBlock}
    (bound : height.toNat ≤ peer.active.length)
    (page : blocks <+: peer.active.drop height.toNat) :
    (assignHeights blockHash (height + 1) blocks).reverse ++
        peer.chain blockHash height.toNat =
      peer.chain blockHash (height.toNat + blocks.length) := by
  have length : (peer.active.take height.toNat).length = height.toNat := by
    rw [List.length_take, Nat.min_eq_left bound]
  have shift : 1 + BitVec.ofNat 64 height.toNat = height + 1 := by
    rw [BitVec.ofNat_toNat, BitVec.setWidth_eq, BitVec.add_comm]
  rw [Peer.chain, Peer.chain, List.take_add, ← List.prefix_iff_eq_take.mp page, assignHeights_append,
    length, shift, List.reverse_append]

end Active

/-! One fetch. -/

section Cursor

variable {stage : PullStage}

theorem readPoint_height {db : DB} {height : U64} {point : Point}
    (read : readPoint db height = .ok point) : point.height = height := by
  rw [readPoint] at read
  split at read
  · cases read
  · cases read
  · rw [Except.ok.injEq] at read
    rw [← read]

theorem readPoints_stored {db : DB} {heights : List U64} {points : List Point}
    (read : readPoints (Reads.of db) heights = .ok points) :
    ∀ point ∈ points, readPoint db point.height = .ok point := by
  induction heights generalizing points with
  | nil =>
      rw [readPoints, Except.ok.injEq] at read
      rw [← read]
      intro point member
      cases member
  | cons height heights ih =>
      rw [readPoints] at read
      cases first : readPoint ((Reads.of db).get 0) height with
      | error failure =>
          rw [first] at read
          cases read
      | ok point =>
          rw [first] at read
          cases rest : readPoints (Reads.of db).rest heights with
          | error failure =>
              rw [rest] at read
              cases read
          | ok later =>
              rw [rest] at read
              obtain rfl : point :: later = points := Except.ok.inj read
              intro other member
              rcases List.mem_cons.mp member with rfl | inside
              · rw [readPoint_height first]
                exact first
              · exact ih rest other inside

theorem intersectOptions_stored {db : DB} {genesis : BlockHash} {options : List Point}
    (read : intersectOptions (Reads.of db) genesis = .ok options) :
    ∀ point ∈ options, point = ⟨0, genesis⟩ ∨ readPoint db point.height = .ok point := by
  rw [intersectOptions] at read
  split at read
  · cases read
  · rw [Except.ok.injEq] at read
    rw [← read]
    intro point member
    exact Or.inl (List.mem_singleton.mp member)
  · rename_i tip _
    cases found : readPoints (Reads.of db) (locatorHeights (tip.toNat + 1) 0 1 tip) with
    | error failure =>
        rw [found] at read
        cases read
    | ok points =>
        rw [found] at read
        obtain rfl : points ++ [(⟨0, genesis⟩ : Point)] = options := Except.ok.inj read
        intro point member
        rcases List.mem_append.mp member with inside | last
        · exact Or.inr (readPoints_stored found point inside)
        · exact Or.inl (List.mem_singleton.mp last)

/-- Where the points of a new cursor come from: the page, the table below the page, and
genesis. -/
structure CursorFrom (stage : PullStage) (db : DB) (fetched cursor : List Point) : Prop where
  genesis : ⟨0, stage.genesisHash⟩ ∈ cursor
  top : fetched ≠ [] → cursor.head? = fetched.reverse.head?
  points : ∀ point ∈ cursor, point ∈ fetched ∨ point = ⟨0, stage.genesisHash⟩ ∨
    ((∀ first, fetched.head? = some first → point.height < first.height) ∧
      readPoint db point.height = .ok point)

theorem nextCursor_from {db : DB} {fetched cursor : List Point}
    (built : nextCursor stage fetched (Reads.of db) = .ok cursor) :
    CursorFrom stage db fetched cursor := by
  have recent_mem (point : Point) (member : point ∈ fetched.reverse.take 50) : point ∈ fetched :=
    List.mem_reverse.mp (List.mem_of_mem_take member)
  have recent_head : (fetched.reverse.take 50).head? = fetched.reverse.head? := by
    cases fetched.reverse with
    | nil => rfl
    | cons point rest => rfl
  simp only [nextCursor] at built
  split at built
  · rename_i few
    have whole : fetched.reverse.take 50 = fetched.reverse := by
      apply List.take_of_length_le
      rw [List.length_take] at few
      omega
    rw [whole] at built recent_mem
    cases read : intersectOptions (Reads.of db) stage.genesisHash with
    | error failure =>
        rcases orElse_error (List Point) failure .panic with ⟨raised, error⟩
        rw [read, orPanic, error] at built
        cases built
    | ok options =>
        have stored := intersectOptions_stored read
        rw [read, List.getLast?_reverse] at built
        cases first : fetched.head? with
        | none =>
            rw [first] at built
            obtain rfl : options ++ [(⟨0, stage.genesisHash⟩ : Point)] = cursor := Except.ok.inj built
            refine ⟨by simp, ?_, ?_⟩
            · intro some
              exact absurd (List.head?_eq_none_iff.mp first) some
            · intro point member
              rcases List.mem_append.mp member with inside | last
              · rcases stored point inside with genesis | entry
                · exact Or.inr (Or.inl genesis)
                · refine Or.inr (Or.inr ⟨?_, entry⟩)
                  intro _ found
                  rw [first] at found
                  cases found
              · exact Or.inr (Or.inl (List.mem_singleton.mp last))
        | some lowest =>
            rw [first] at built
            obtain rfl : fetched.reverse ++ options.filter (fun point => point.height < lowest.height) ++
                [(⟨0, stage.genesisHash⟩ : Point)] = cursor := Except.ok.inj built
            refine ⟨by simp, ?_, ?_⟩
            · intro some
              rw [List.append_assoc, List.head?_append_of_ne_nil]
              rw [ne_eq, List.reverse_eq_nil_iff]
              exact some
            · intro point member
              rcases List.mem_append.mp member with inside | last
              · rcases List.mem_append.mp inside with page | entry
                · exact Or.inl (recent_mem point page)
                · rw [List.mem_filter, decide_eq_true_eq] at entry
                  rcases stored point entry.1 with genesis | read
                  · exact Or.inr (Or.inl genesis)
                  · refine Or.inr (Or.inr ⟨?_, read⟩)
                    intro other found
                    rw [first, Option.some.injEq] at found
                    rw [← found]
                    exact entry.2
              · exact Or.inr (Or.inl (List.mem_singleton.mp last))
  · obtain rfl : fetched.reverse.take 50 ++ [(⟨0, stage.genesisHash⟩ : Point)] = cursor :=
      Except.ok.inj built
    refine ⟨by simp, ?_, ?_⟩
    · intro some
      rw [List.head?_append_of_ne_nil, recent_head]
      intro none
      rw [List.take_eq_nil_iff, List.reverse_eq_nil_iff] at none
      rcases none with impossible | empty
      · cases impossible
      · exact some empty
    · intro point member
      rcases List.mem_append.mp member with page | last
      · exact Or.inl (recent_mem point page)
      · exact Or.inr (Or.inl (List.mem_singleton.mp last))

end Cursor

section Fetch

variable {blockHash : Header → BlockHash} {stage : PullStage} {known : Header → Prop} {peer : Peer}
variable {chain cursor : List Point} {target : Point}

theorem PullWorker.fetch_cases {worker after : PullWorker} {reads : Reads}
    {events : List ChainEvent}
    (success : worker.fetchChainActions blockHash stage peer reads = .ok (events, after)) :
    (peer.getNewHeaders blockHash stage (worker.cursor.map Point.hash) = [] ∧ events = [] ∧
      after = worker) ∨
    ∃ first later height,
      peer.getNewHeaders blockHash stage (worker.cursor.map Point.hash) = first :: later ∧
      intersectHeight worker.cursor first.header.prevBlockhash = some height ∧
      nextCursor stage (assignHeights blockHash (height + 1) ((first :: later).take
        stage.blockPageSize)) reads = .ok after.cursor ∧
      events = rollBackTo worker.cursor ⟨height, first.header.prevBlockhash⟩ ++
        (rollForwards blockHash (height + 1) worker.tip ((first :: later).take
          stage.blockPageSize)).1 := by
  rw [fetchChainActions] at success
  split at success
  · rename_i none
    rw [Except.ok.injEq, Prod.mk.injEq] at success
    exact Or.inl ⟨none, success.1.symm, success.2.symm⟩
  · rename_i first later headers
    refine Or.inr ⟨first, later, ?_⟩
    dsimp only at success
    split at success
    · cases success
    · rename_i height found
      split at success
      · cases success
      · rename_i cursor built
        rw [Except.ok.injEq, Prod.mk.injEq] at success
        refine ⟨height, headers, found, ?_, success.1.symm⟩
        rw [built, ← success.2]

theorem Peer.Honest.below (honest : peer.Honest blockHash stage known)
    (tell : HashesTell (KnownAt blockHash known) stage.genesisHash)
    (linked : Symphony.Linked (KnownAt blockHash known) stage.genesisHash chain)
    (inside : target ∈ chain ∨ target = ⟨0, stage.genesisHash⟩)
    (active : target.hash ∈ peer.hashes blockHash stage) :
    target.height.toNat ≤ peer.active.length ∧
      chain.dropWhile (fun other => other ≠ target) = peer.chain blockHash target.height.toNat ∧
      (peer.hashes blockHash stage)[target.height.toNat]? = some target.hash := by
  rcases inside with member | rfl
  · rcases List.append_of_mem member with ⟨above, below, split⟩
    have dropped : chain.drop above.length = target :: below := by
      rw [split]
      exact List.drop_left
    have suffix := linked.drop above.length
    have top : chainTop stage.genesisHash (chain.drop above.length) = target := by
      rw [dropped]
      rfl
    have rolled := linked.dropWhile top (by rw [dropped]; simp)
    rw [dropped] at suffix rolled
    rcases honest.part tell suffix active with ⟨bound, same⟩
    rw [rolled]
    refine ⟨bound, same, ?_⟩
    rw [Peer.chain_hash bound, ← same]
    rfl
  · have none : chain.dropWhile (fun other => other ≠ (⟨0, stage.genesisHash⟩ : Point)) = [] := by
      rw [List.dropWhile_eq_nil_iff]
      intro other listed
      rw [decide_eq_true_eq]
      intro same
      have bounds := linked.contiguous.height_le listed
      rw [same, show (0 : U64).toNat = 0 from rfl] at bounds
      omega
    exact ⟨Nat.zero_le _, none, rfl⟩

theorem follows_rollBackTo (inside : target ∈ chain ∨ target = ⟨0, stage.genesisHash⟩) :
    Follows stage.genesisHash chain (rollBackTo cursor target) := by
  rw [rollBackTo]
  split
  · trivial
  · split
    · exact ⟨inside, trivial⟩
    · trivial

theorem forwardHeight_rollBackTo :
    (rollBackTo cursor target).filterMap ChainEvent.forwardHeight = [] := by
  rw [rollBackTo]
  split
  · rfl
  · split
    · rfl
    · rfl

theorem Peer.Honest.rolled (honest : peer.Honest blockHash stage known)
    (tell : HashesTell (KnownAt blockHash known) stage.genesisHash)
    (linked : Symphony.Linked (KnownAt blockHash known) stage.genesisHash chain)
    (inside : target ∈ chain ∨ target = ⟨0, stage.genesisHash⟩)
    (active : target.hash ∈ peer.hashes blockHash stage)
    (listed : target ∈ cursor) :
    emittedChain chain (rollBackTo cursor target) = chain ∧
        (cursor.head? = some (chainTop stage.genesisHash chain) →
          chain = peer.chain blockHash target.height.toNat) ∨
      emittedChain chain (rollBackTo cursor target) =
        peer.chain blockHash target.height.toNat := by
  have below := (honest.below tell linked inside active).2.1
  cases head : cursor.head? with
  | none =>
      rw [List.head?_eq_none_iff.mp head] at listed
      cases listed
  | some tip =>
      simp only [rollBackTo, head]
      by_cases behind : target.height ≠ tip.height
      · rw [if_pos behind]
        exact Or.inr below
      · rw [if_neg behind]
        refine Or.inl ⟨rfl, ?_⟩
        intro top
        rw [Option.some.injEq] at top
        rw [not_not, top] at behind
        rw [← below]
        cases chain with
        | nil => rfl
        | cons first rest =>
            have equal : target = first := by
              rcases inside with member | rfl
              · exact linked.contiguous.eq_of_height member List.mem_cons_self behind
              · have zero : (0 : U64) = first.height := behind
                have height := linked.1
                rw [← zero] at height
                exact absurd height (Nat.succ_ne_zero rest.length).symm
            rw [List.dropWhile_cons_of_neg (by simpa using equal.symm)]

end Fetch

def Pipeline.BelowPage (pipeline : Pipeline) (point : Point) : Prop :=
  ∀ first, pipeline.floor = some first → point.height < first

theorem head?_chainTop {genesis : BlockHash} {front base : List Point} (some : front ≠ []) :
    front.head? = Option.some (chainTop genesis (front ++ base)) := by
  cases front with
  | nil => exact absurd rfl some
  | cons point rest => rfl

/-- The events follow a chain, and the cursor starts at its top. -/
structure Following (blockHash : Header → BlockHash) (stage : PullStage) (known : Header → Prop)
    (origin : List Point) (pipeline : Pipeline) : Prop where
  follows : Follows stage.genesisHash origin pipeline.emitted
  linked : Linked (KnownAt blockHash known) stage.genesisHash (emittedChain origin pipeline.emitted)
  genesis : ⟨0, stage.genesisHash⟩ ∈ pipeline.worker.cursor
  top : stage.blockPageSize ≠ 0 → pipeline.worker.cursor.head? =
    some (chainTop stage.genesisHash (emittedChain origin pipeline.emitted))
  points : ∀ point ∈ pipeline.worker.cursor, point ∈ emittedChain origin pipeline.emitted ∨
    point = ⟨0, stage.genesisHash⟩ ∨
    (pipeline.BelowPage point ∧ readPoint pipeline.seen point.height = .ok point)

/-- The node has not gone back: no point that the table held below the page when the cursor was
built, and that the emitted chain does not have, is on the active chain. -/
def NotReturned (blockHash : Header → BlockHash) (stage : PullStage) (origin : List Point)
    (pipeline : Pipeline) (peer : Peer) : Prop :=
  ∀ point, readPoint pipeline.seen point.height = .ok point → pipeline.BelowPage point →
    point ∉ emittedChain origin pipeline.emitted → point.hash ∉ peer.hashes blockHash stage

section Step

variable {blockHash : Header → BlockHash} {stage : PullStage} {known : Header → Prop} {peer : Peer}
variable {origin : List Point} {pipeline next : Pipeline}

theorem Pipeline.fetch_ok (stepped : pipeline.fetch blockHash stage peer = some next) :
    ∃ events worker, pipeline.worker.fetchChainActions blockHash stage peer
        (Reads.of pipeline.machine.stage.db.db) = .ok (events, worker) ∧
      ((peer.getNewHeaders blockHash stage (pipeline.worker.cursor.map Point.hash) = [] ∧
          next = { pipeline.emit events with worker }) ∨
        (peer.getNewHeaders blockHash stage (pipeline.worker.cursor.map Point.hash) ≠ [] ∧
          next = { pipeline.emit events with
            worker
            seen := pipeline.machine.stage.db.db
            floor := (events.filterMap ChainEvent.forwardHeight).head? })) := by
  simp only [Pipeline.fetch] at stepped
  split at stepped
  · cases stepped
  · rename_i events worker success
    refine ⟨events, worker, success, ?_⟩
    split at stepped
    · rename_i none
      exact Or.inl ⟨none, (Option.some.inj stepped).symm⟩
    · rename_i first later headers
      refine Or.inr ⟨?_, (Option.some.inj stepped).symm⟩
      rw [headers]
      exact List.cons_ne_nil first later

theorem Following.inside (following : Following blockHash stage known origin pipeline)
    (away : NotReturned blockHash stage origin pipeline peer) {point : Point}
    (member : point ∈ pipeline.worker.cursor)
    (active : point.hash ∈ peer.hashes blockHash stage) :
    point ∈ emittedChain origin pipeline.emitted ∨ point = ⟨0, stage.genesisHash⟩ := by
  rcases following.points point member with page | genesis | ⟨below, stored⟩
  · exact Or.inl page
  · exact Or.inr genesis
  · by_contra off
    exact away point stored below (by
      intro listed
      exact off (Or.inl listed)) active

theorem Following.placed (following : Following blockHash stage known origin pipeline)
    (honest : peer.Honest blockHash stage known)
    (tell : HashesTell (KnownAt blockHash known) stage.genesisHash)
    (away : NotReturned blockHash stage origin pipeline peer) :
    Placed blockHash stage peer pipeline.worker.cursor := by
  intro point member active
  exact (honest.below tell following.linked (following.inside away member active) active).2.2

theorem located_of_chosen {cursor : List Point} {target : Point}
    (chosen : cursor.find? (fun point => decide (point.hash ∈ peer.hashes blockHash stage)) =
      some target) :
    (cursor.map Point.hash).find? (fun hash => decide (hash ∈ peer.hashes blockHash stage)) =
      some target.hash := by
  rw [List.find?_map]
  exact congrArg (Option.map Point.hash) chosen

theorem Following.chosen (following : Following blockHash stage known origin pipeline)
    (honest : peer.Honest blockHash stage known)
    (tell : HashesTell (KnownAt blockHash known) stage.genesisHash)
    (away : NotReturned blockHash stage origin pipeline peer) :
    ∃ target : Point, pipeline.worker.cursor.find?
        (fun point => decide (point.hash ∈ peer.hashes blockHash stage)) = some target ∧
      target ∈ pipeline.worker.cursor ∧ target.hash ∈ peer.hashes blockHash stage ∧
      peer.getNewHeaders blockHash stage (pipeline.worker.cursor.map Point.hash) =
        (peer.active.drop target.height.toNat).take peer.limit := by
  have placed := following.placed honest tell away
  have some : (pipeline.worker.cursor.find?
      (fun point => decide (point.hash ∈ peer.hashes blockHash stage))).isSome := by
    rw [List.find?_isSome]
    exact ⟨_, following.genesis, by simp [Peer.hashes]⟩
  rcases Option.isSome_iff_exists.mp some with ⟨target, chosen⟩
  have member := List.mem_of_find?_eq_some chosen
  have active := List.find?_some chosen
  rw [decide_eq_true_eq] at active
  have located := located_of_chosen chosen
  refine ⟨target, chosen, member, active, ?_⟩
  simp only [Peer.getNewHeaders, located, idxOf_eq honest.linked.distinct (placed target member active)]

theorem Following.parent (following : Following blockHash stage known origin pipeline)
    (honest : peer.Honest blockHash stage known)
    (tell : HashesTell (KnownAt blockHash known) stage.genesisHash)
    (away : NotReturned blockHash stage origin pipeline peer) {target : Point} {first : NodeBlock}
    {later : List NodeBlock}
    (chosen : pipeline.worker.cursor.find?
      (fun point => decide (point.hash ∈ peer.hashes blockHash stage)) = some target)
    (headers : peer.getNewHeaders blockHash stage (pipeline.worker.cursor.map Point.hash) =
      first :: later)
    (more : target.height.toNat < peer.active.length) :
    first.header.prevBlockhash = target.hash ∧
      intersectHeight pipeline.worker.cursor first.header.prevBlockhash = some target.height := by
  have placed := following.placed honest tell away
  have member := List.mem_of_find?_eq_some chosen
  have active := List.find?_some chosen
  rw [decide_eq_true_eq] at active
  have located := located_of_chosen chosen
  rcases honest.linked.after located (placed target member active) more with
    ⟨block, rest, same, parent⟩
  rw [headers, List.cons.injEq] at same
  rw [same.1, parent]
  exact ⟨rfl, placed.intersectHeight honest.linked member active⟩

theorem Following.target (following : Following blockHash stage known origin pipeline)
    (honest : peer.Honest blockHash stage known)
    (tell : HashesTell (KnownAt blockHash known) stage.genesisHash)
    (away : NotReturned blockHash stage origin pipeline peer) {first : NodeBlock}
    {later : List NodeBlock} {height : BlockHeight}
    (headers : peer.getNewHeaders blockHash stage (pipeline.worker.cursor.map Point.hash) =
      first :: later)
    (found : intersectHeight pipeline.worker.cursor first.header.prevBlockhash = some height) :
    ∃ target : Point, target ∈ pipeline.worker.cursor ∧
      target.hash ∈ peer.hashes blockHash stage ∧
      target = ⟨height, first.header.prevBlockhash⟩ ∧ target.height.toNat < peer.active.length ∧
      first :: later = (peer.active.drop target.height.toNat).take peer.limit := by
  rcases following.chosen honest tell away with ⟨target, chosen, member, active, served⟩
  have more : target.height.toNat < peer.active.length := by
    by_contra beyond
    rw [headers, List.drop_of_length_le (by omega), List.take_nil] at served
    cases served
  rcases following.parent honest tell away chosen headers more with ⟨parent, height_eq⟩
  rw [found, Option.some.injEq] at height_eq
  refine ⟨target, member, active, ?_, more, by rw [← headers, served]⟩
  rw [height_eq, parent]

theorem Following.answer (following : Following blockHash stage known origin pipeline)
    (honest : peer.Honest blockHash stage known)
    (tell : HashesTell (KnownAt blockHash known) stage.genesisHash) {target : Point}
    (listed : target ∈ pipeline.worker.cursor)
    (inside : target ∈ emittedChain origin pipeline.emitted ∨ target = ⟨0, stage.genesisHash⟩)
    (active : target.hash ∈ peer.hashes blockHash stage) {blocks : List NodeBlock}
    (page : blocks <+: peer.active.drop target.height.toNat)
    (sized : blocks ≠ [] → stage.blockPageSize ≠ 0) (tip : Point) :
    ∃ base, emittedChain (emittedChain origin pipeline.emitted) (rollBackTo pipeline.worker.cursor
          target ++ (rollForwards blockHash (target.height + 1) tip blocks).1) =
        (assignHeights blockHash (target.height + 1) blocks).reverse ++ base ∧
      Follows stage.genesisHash (emittedChain origin pipeline.emitted)
        (rollBackTo pipeline.worker.cursor target ++
          (rollForwards blockHash (target.height + 1) tip blocks).1) ∧
      Linked (KnownAt blockHash known) stage.genesisHash
        ((assignHeights blockHash (target.height + 1) blocks).reverse ++ base) := by
  have linked := following.linked
  have bound := (honest.below tell linked inside active).1
  have rolled := honest.rolled tell linked inside active listed
  have behind := @follows_rollBackTo stage _ pipeline.worker.cursor _ inside
  have based : Linked (KnownAt blockHash known) stage.genesisHash
      (emittedChain (emittedChain origin pipeline.emitted)
        (rollBackTo pipeline.worker.cursor target)) := by
    rcases rolled with ⟨kept, _⟩ | moved
    · rw [kept]
      exact linked
    · rw [moved]
      exact honest.chain_linked bound
  have short : target.height.toNat + blocks.length ≤ peer.active.length := by
    have length := page.length_le
    rw [List.length_drop] at length
    omega
  have node (some : blocks ≠ []) : emittedChain (emittedChain origin pipeline.emitted)
      (rollBackTo pipeline.worker.cursor target) = peer.chain blockHash target.height.toNat := by
    rcases rolled with ⟨kept, same⟩ | moved
    · rw [kept]
      exact same (following.top (sized some))
    · exact moved
  refine ⟨emittedChain (emittedChain origin pipeline.emitted)
    (rollBackTo pipeline.worker.cursor target), ?_, follows_append behind ?_, ?_⟩
  · rw [emittedChain_append, emittedChain_rollForwards]
  · by_cases none : blocks = []
    · rw [none]
      trivial
    · have limit := honest.short
      have one : (1 : U64).toNat = 1 := rfl
      have next : (target.height + 1).toNat = target.height.toNat + 1 := by
        have some : 0 < blocks.length := List.length_pos_iff.mpr none
        rw [BitVec.toNat_add, one, Nat.mod_eq_of_lt (by omega)]
      rw [node none]
      apply follows_rollForwards
      · rw [next, (honest.chain_linked bound).height_top, Peer.length_chain bound]
      · omega
  · by_cases none : blocks = []
    · rw [none]
      exact based
    · rw [node none, Peer.chain_page bound page]
      exact honest.chain_linked short

theorem Following.fetch (following : Following blockHash stage known origin pipeline)
    (honest : peer.Honest blockHash stage known)
    (tell : HashesTell (KnownAt blockHash known) stage.genesisHash)
    (away : NotReturned blockHash stage origin pipeline peer)
    (stepped : pipeline.fetch blockHash stage peer = some next) :
    Following blockHash stage known origin next := by
  rcases Pipeline.fetch_ok stepped with ⟨events, worker, success, rest⟩
  rcases PullWorker.fetch_cases success with
    ⟨none, rfl, rfl⟩ | ⟨first, later, height, headers, found, built, emitted⟩
  · rcases rest with ⟨_, rfl⟩ | ⟨some, _⟩
    · rw [Pipeline.emit, List.append_nil, List.append_nil]
      exact following
    · exact absurd none some
  · rcases rest with ⟨none, _⟩ | ⟨_, rfl⟩
    · rw [headers] at none
      cases none
    · rcases following.target honest tell away headers found with
        ⟨target, member, active, rfl, more, served⟩
      have page : (first :: later).take stage.blockPageSize <+: peer.active.drop height.toNat := by
        apply (List.take_prefix _ _).trans
        rw [served]
        exact List.take_prefix _ _
      have sized : (first :: later).take stage.blockPageSize ≠ [] → stage.blockPageSize ≠ 0 := by
        intro some zero
        rw [zero] at some
        exact some rfl
      rcases following.answer honest tell member (following.inside away member active) active page
        sized pipeline.worker.tip with ⟨base, reached, follows, linked⟩
      rw [← emitted] at reached follows
      rw [← reached] at linked
      have source := nextCursor_from built
      have floor : (events.filterMap ChainEvent.forwardHeight).head? =
          (assignHeights blockHash (height + 1) ((first :: later).take
            stage.blockPageSize)).head?.map Point.height := by
        rw [emitted, List.filterMap_append, forwardHeight_rollBackTo, forwardHeights, List.nil_append,
          List.head?_map]
      rw [← emittedChain_append] at reached linked
      constructor
      · exact follows_append following.follows follows
      · exact linked
      · exact source.genesis
      · intro size
        have some : assignHeights blockHash (height + 1) ((first :: later).take
            stage.blockPageSize) ≠ [] := by
          rcases Nat.exists_eq_succ_of_ne_zero size with ⟨more, positive⟩
          rw [positive, List.take_succ_cons, assignHeights]
          exact List.cons_ne_nil _ _
        rw [source.top some, Pipeline.emit, reached]
        exact head?_chainTop (by simpa using some)
      · intro point listed
        rcases source.points point listed with fetched | genesis | ⟨below, stored⟩
        · refine Or.inl ?_
          rw [Pipeline.emit, reached]
          exact List.mem_append_left _ (List.mem_reverse.mpr fetched)
        · exact Or.inr (Or.inl genesis)
        · refine Or.inr (Or.inr ⟨?_, stored⟩)
          intro lowest found
          rw [floor, Option.map_eq_some_iff] at found
          rcases found with ⟨low, top, rfl⟩
          exact below low top

/-- Every move keeps the events on the chain. -/
theorem Following.step (following : Following blockHash stage known origin pipeline) {move : Move}
    (tell : HashesTell (KnownAt blockHash known) stage.genesisHash)
    (honest : ∀ peer, move = .fetch peer → peer.Honest blockHash stage known)
    (away : ∀ peer, move = .fetch peer → NotReturned blockHash stage origin pipeline peer)
    (stepped : pipeline.step blockHash stage move = some next) :
    Following blockHash stage known origin next := by
  cases move with
  | fetch peer => exact following.fetch (honest peer rfl) tell (away peer rfl) stepped
  | template info txs =>
      rw [Pipeline.step, Option.some.injEq] at stepped
      subst stepped
      have same : emittedChain origin (pipeline.emitted ++ [.mempoolBlocks info [txs]]) =
          emittedChain origin pipeline.emitted := emittedChain_append _ _ _
      constructor
      · exact follows_append following.follows ⟨trivial, trivial⟩
      · rw [Pipeline.emit, same]
        exact following.linked
      · exact following.genesis
      · rw [Pipeline.emit, same]
        exact following.top
      · rw [Pipeline.emit, same]
        exact following.points
  | index env =>
      rw [Pipeline.step] at stepped
      split at stepped
      · cases stepped
      · rw [Option.some.injEq] at stepped
        subst stepped
        exact ⟨following.follows, following.linked, following.genesis, following.top, following.points⟩

end Step

def Pipeline.Requests (blockHash : Header → BlockHash) (stage : PullStage)
    (good : Pipeline → Peer → Prop) (pipeline : Pipeline) : List Move → Prop
  | [] => True
  | move :: moves => (∀ peer, move = .fetch peer → good pipeline peer) ∧
      ∀ next, pipeline.step blockHash stage move = some next →
        next.Requests blockHash stage good moves

theorem Following.run {blockHash : Header → BlockHash} {stage : PullStage} {known : Header → Prop}
    {origin : List Point} {pipeline finish : Pipeline} {moves : List Move}
    (following : Following blockHash stage known origin pipeline)
    (tell : HashesTell (KnownAt blockHash known) stage.genesisHash)
    (honest : ∀ peer, .fetch peer ∈ moves → peer.Honest blockHash stage known)
    (away : pipeline.Requests blockHash stage (NotReturned blockHash stage origin) moves)
    (ran : pipeline.run blockHash stage moves = some finish) :
    Following blockHash stage known origin finish := by
  induction moves generalizing pipeline with
  | nil =>
      rw [Pipeline.run, Option.some.injEq] at ran
      rw [← ran]
      exact following
  | cons move moves ih =>
      rw [Pipeline.run] at ran
      cases stepped : pipeline.step blockHash stage move with
      | none =>
          rw [stepped] at ran
          cases ran
      | some next =>
          rw [stepped] at ran
          have here : Following blockHash stage known origin next := by
            apply following.step tell _ away.1 stepped
            intro peer first
            exact honest peer (by rw [first]; exact List.mem_cons_self)
          apply ih here _ (away.2 next stepped) ran
          intro peer later
          exact honest peer (List.mem_cons_of_mem _ later)

theorem following_start {blockHash : Header → BlockHash} {stage : PullStage}
    {known : Header → Prop} {machine : Machine} {chain : List Point} {worker : PullWorker}
    {tip : Point} (holds : HoldsChain machine.stage.db.db chain)
    (linked : Linked (KnownAt blockHash known) stage.genesisHash chain)
    (booted : PullWorker.bootstrap stage (Reads.of machine.stage.db.db) tip = .ok worker) :
    Following blockHash stage known chain (Pipeline.start machine worker) := by
  have read : ∃ options, intersectOptions (Reads.of machine.stage.db.db) stage.genesisHash =
      .ok options ∧ ⟨0, stage.genesisHash⟩ ∈ options ∧
      options.head? = some (chainTop stage.genesisHash chain) := by
    cases chain with
    | nil =>
        have none : lastEntryHeight (Reads.of machine.stage.db.db).top = .ok none :=
          holds.lastEntryHeight
        refine ⟨[⟨0, stage.genesisHash⟩], ?_, List.mem_singleton_self _, rfl⟩
        rw [intersectOptions, none]
    | cons top below =>
        rcases holds.intersectOptions stage.genesisHash with ⟨points, read, listed⟩
        refine ⟨_, read, List.mem_append_right _ (List.mem_singleton_self _), ?_⟩
        rw [locatorOf, locatorHeights] at listed
        cases listed with
        | cons here rest =>
            rename_i point points
            have same : point = top :=
              holds.contiguous.eq_of_height here.1 List.mem_cons_self here.2
            rw [same]
            rfl
  rcases read with ⟨options, read, genesis, top⟩
  rw [PullWorker.bootstrap, read] at booted
  obtain rfl : (⟨options, tip⟩ : PullWorker) = worker := Except.ok.inj booted
  refine ⟨trivial, linked, genesis, by intro _; exact top, ?_⟩
  intro point member
  rcases intersectOptions_stored read point member with last | stored
  · exact Or.inr (Or.inl last)
  · refine Or.inr (Or.inr ⟨?_, stored⟩)
    intro first impossible
    cases impossible

theorem notReturned_start {blockHash : Header → BlockHash} {stage : PullStage} {machine : Machine}
    {chain : List Point} {worker : PullWorker} (holds : HoldsChain machine.stage.db.db chain)
    (peer : Peer) : NotReturned blockHash stage chain (Pipeline.start machine worker) peer := by
  intro point stored _ off
  exact absurd (holds.of_readPoint stored) off

/-- In every run whose requests find the node off the branches that the events have left and the
table still held, every rollback names a point of the emitted chain and the blocks after it come
one height after the other. -/
theorem rollbacks_on_emitted_chain (blockHash : Header → BlockHash) (stage : PullStage)
    (known : Header → Prop) (machine : Machine) (chain : List Point) (tip : Point)
    (worker : PullWorker) (moves : List Move) (finish : Pipeline)
    (tell : HashesTell (KnownAt blockHash known) stage.genesisHash)
    (holds : HoldsChain machine.stage.db.db chain)
    (linked : Linked (KnownAt blockHash known) stage.genesisHash chain)
    (booted : PullWorker.bootstrap stage (Reads.of machine.stage.db.db) tip = .ok worker)
    (honest : ∀ peer, .fetch peer ∈ moves → peer.Honest blockHash stage known)
    (away : (Pipeline.start machine worker).Requests blockHash stage
      (NotReturned blockHash stage chain) moves)
    (ran : (Pipeline.start machine worker).run blockHash stage moves = some finish) :
    Follows stage.genesisHash chain finish.emitted :=
  ((following_start holds linked booted).run tell honest away ran).follows

def threeBlockEvents : List (Env × ChainEvent) :=
  [(acceptAt 5, .rollForward ⟨1, hashOf 1⟩ ⟨hashOf 0, [1]⟩ [] ⟨3, hashOf 3⟩),
    (acceptAt 7, .rollForward ⟨2, hashOf 2⟩ ⟨hashOf 1, [2]⟩ [] ⟨3, hashOf 3⟩),
    (acceptAt 9, .rollForward ⟨3, hashOf 3⟩ ⟨hashOf 2, [3]⟩ [] ⟨3, hashOf 3⟩)]

def threeBlocks : Machine := (Machine.bootstrap [] (Stage.empty byteConfig)).run threeBlockEvents

def threeChain : List Point := [⟨3, hashOf 3⟩, ⟨2, hashOf 2⟩, ⟨1, hashOf 1⟩]

/-- The node on the branch of these blocks, and on one that leaves it after the first. -/
def firstBranch : Peer := ⟨linkedBlocks 0 [1, 2, 3, 4], 2000⟩

def secondBranch : Peer := ⟨linkedBlocks 0 [1, 102, 103, 104], 2000⟩

def branchHeaders : List Header :=
  (firstBranch.active ++ secondBranch.active).map NodeBlock.header

def onePage : PullStage := ⟨hashOf 0, 1⟩

def threeWorker : PullWorker := ⟨threeChain ++ [⟨0, hashOf 0⟩], ⟨3, hashOf 3⟩⟩

theorem branchHeaders_tell : HashesTell (KnownAt byteHash (· ∈ branchHeaders)) (hashOf 0) where
  same := by
    intro first second point other one two same
    have apart : ∀ header ∈ branchHeaders, ∀ header' ∈ branchHeaders,
        byteHash header = byteHash header' → header = header' := by decide +kernel
    exact apart first one.1 second two.1 (one.2.symm.trans (same.trans two.2))
  above := by
    intro header point named _
    have apart : ∀ header ∈ branchHeaders, byteHash header ≠ hashOf 0 := by decide +kernel
    rw [named.2]
    exact apart header named.1

theorem threeChain_linked : Linked (KnownAt byteHash (· ∈ branchHeaders)) (hashOf 0) threeChain := by
  refine ⟨rfl, ⟨⟨hashOf 2, [3]⟩, by decide +kernel, rfl⟩, rfl, ⟨⟨hashOf 1, [2]⟩, by decide +kernel, rfl⟩,
    rfl, ⟨⟨hashOf 0, [1]⟩, by decide +kernel, rfl⟩, trivial⟩

theorem threeBlocks_holds : HoldsChain threeBlocks.stage.db.db threeChain := by
  have valid : ∀ event ∈ threeBlockEvents,
      event.2.Valid (KnownAt byteHash (· ∈ branchHeaders)) := by decide +kernel
  have coherent := (kept_coherent (KnownAt byteHash (· ∈ branchHeaders)) (hashOf 0)).run
    (coherent_bootstrap _ byteConfig [] _ (Stage.new_empty byteConfig)) threeBlockEvents valid
    (by decide +kernel)
  rcases coherent.inv with ⟨chain, ledger, inv⟩
  have top : (chainTop (hashOf 0) chain).hash = (chainTop (hashOf 0) threeChain).hash := by
    rw [← inv.tip]
    decide +kernel
  rw [← inv.linked.eq_of_hash branchHeaders_tell threeChain_linked top]
  exact ⟨inv.linked.contiguous, inv.tables.hashes⟩

theorem branches_honest {peer : Peer} (one : peer = firstBranch ∨ peer = secondBranch) :
    peer.Honest byteHash onePage (· ∈ branchHeaders) := by
  rcases one with rfl | rfl
  · exact ⟨⟨by decide +kernel, by decide +kernel, by decide⟩, by decide +kernel, by decide⟩
  · exact ⟨⟨by decide +kernel, by decide +kernel, by decide⟩, by decide +kernel, by decide⟩

/-- The node leaves the first branch, which is indexed before the node comes back. -/
def comeBack : List Move :=
  [.fetch secondBranch, .index (acceptAt 11), .index (acceptAt 13), .fetch firstBranch]

def cameBack : Option Pipeline :=
  (Pipeline.start threeBlocks threeWorker).run byteHash onePage comeBack

theorem comeBack_away : (Pipeline.start threeBlocks threeWorker).Requests byteHash onePage
    (NotReturned byteHash onePage threeChain) comeBack := by
  refine ⟨?_, ?_⟩
  · intro peer _
    exact notReturned_start threeBlocks_holds peer
  · intro first left
    refine ⟨by (intro peer impossible; cases impossible), ?_⟩
    intro second undone
    refine ⟨by (intro peer impossible; cases impossible), ?_⟩
    intro third indexed
    refine ⟨?_, by intro next _; trivial⟩
    intro peer _ point stored below off
    have ran : (Pipeline.start threeBlocks threeWorker).run byteHash onePage (comeBack.take 3) =
        some third := by
      simp only [comeBack, List.take_succ_cons, List.take_zero, Pipeline.run, left, undone, indexed]
    have state : ((Pipeline.start threeBlocks threeWorker).run byteHash onePage (comeBack.take 3)).map
        (fun pipeline => (pipeline.floor, emittedChain threeChain pipeline.emitted,
          readPoint pipeline.seen 0, readPoint pipeline.seen 1)) =
        some (some 2, [⟨2, hashOf 102⟩, ⟨1, hashOf 1⟩],
          .error (.panicked "missing hash by height kv"), .ok ⟨1, hashOf 1⟩) := by decide +kernel
    rw [ran, Option.map_some, Option.some.injEq, Prod.mk.injEq, Prod.mk.injEq, Prod.mk.injEq] at state
    rcases state with ⟨floor, chain, zero, one⟩
    have low := below 2 floor
    obtain lowest | first : point.height = 0 ∨ point.height = 1 := by
      rw [BitVec.lt_def] at low
      have two : (2 : U64).toNat = 2 := rfl
      rcases Nat.lt_or_ge point.height.toNat 1 with none | some
      · exact Or.inl (BitVec.eq_of_toNat_eq (Nat.lt_one_iff.mp none))
      · exact Or.inr (BitVec.eq_of_toNat_eq (show _ = 1 by omega))
    · rw [lowest, zero] at stored
      cases stored
    · rw [first, one, Except.ok.injEq] at stored
      rw [← stored, chain] at off
      exact absurd (by decide) off

theorem rollbacks_on_emitted_chain_come_back :
    ∃ finish, cameBack = some finish ∧ finish.emitted.length = 4 ∧
      Follows (hashOf 0) threeChain finish.emitted := by
  have ran : cameBack.map (fun pipeline => pipeline.emitted.length) = some 4 := by decide +kernel
  rcases Option.map_eq_some_iff.mp ran with ⟨finish, ran, four⟩
  refine ⟨finish, ran, four, ?_⟩
  exact rollbacks_on_emitted_chain byteHash onePage (· ∈ branchHeaders) threeBlocks threeChain
    ⟨3, hashOf 3⟩ threeWorker comeBack finish branchHeaders_tell threeBlocks_holds threeChain_linked
    (by decide +kernel) (by
      intro peer member
      apply branches_honest
      simpa [comeBack, or_comm] using member) comeBack_away ran

/-- The node leaves the first branch, is followed for two blocks before any of it is indexed,
and comes back. -/
theorem stale_point_rolled_back_to :
    (HashesTell (KnownAt byteHash (· ∈ branchHeaders)) (hashOf 0) ∧
      HoldsChain threeBlocks.stage.db.db threeChain ∧
      firstBranch.Honest byteHash onePage (· ∈ branchHeaders) ∧
      secondBranch.Honest byteHash onePage (· ∈ branchHeaders) ∧
      PullWorker.bootstrap onePage (Reads.of threeBlocks.stage.db.db) ⟨3, hashOf 3⟩ =
        .ok threeWorker) ∧
      ∃ finish, (Pipeline.start threeBlocks threeWorker).run byteHash onePage
          [.fetch secondBranch, .fetch secondBranch, .fetch firstBranch] = some finish ∧
        ¬ Follows (hashOf 0) threeChain finish.emitted := by
  refine ⟨⟨branchHeaders_tell, threeBlocks_holds, branches_honest (Or.inl rfl),
    branches_honest (Or.inr rfl), by decide +kernel⟩, ?_⟩
  have emitted : ((Pipeline.start threeBlocks threeWorker).run byteHash onePage
      [.fetch secondBranch, .fetch secondBranch, .fetch firstBranch]).map (fun finish =>
        decide (Follows (hashOf 0) threeChain finish.emitted)) = some false := by decide +kernel
  rcases Option.map_eq_some_iff.mp emitted with ⟨finish, ran, off⟩
  exact ⟨finish, ran, of_decide_eq_false off⟩

end Symphony
