import Dobbscoin.Coins.TxMemPool
import Dobbscoin.Net.BlocksInFlight

/-!
# Transactions from peers

The `tx` message of `main.cpp`: acceptance to the memory pool, and the orphans that wait for transactions that they spend.
-/

namespace Dobbscoin

/-! ## Acceptance -/

/-- What `AcceptToMemoryPool` and its callers are given: the coins of the chain, and the rules for what a transaction
and its inputs are like. -/
structure TxEnv where
  H : Crypto
  pcoinsTip : CoinsView
  /-- `IsStandardTx`, where the chain asks for it. -/
  isStandardTx : CTransaction → Bool
  /-- The checks from `AreInputsStandard` on: operations, fees, priority and scripts. -/
  checkPolicy : CTransaction → CoinsView → Except CValidationError Unit
  nMaxOrphanTx : Nat

def CValidationError.nDoS : CValidationError → Nat
  | .invalid nDoS _ _ _ => nDoS
  | .error _ => 0

inductive Accepted where
  | accepted (pool : CTxMemPool)
  | missingInputs
  | rejected (nDoS : Nat)

def acceptToMemoryPool (E : TxEnv) (pool : CTxMemPool) (tx : CTransaction) : Accepted :=
  match checkTransaction tx with
  | .error e => .rejected e.nDoS
  | .ok _ =>
    if tx.isCoinBase = true then .rejected 100
    else if E.isStandardTx tx = false then .rejected 0
    else if pool.has (tx.getHash E.H) then .rejected 0
    else if tx.vin.any (fun txin => (pool.mapNextTx.lookup txin.prevout).isSome) = true then .rejected 0
    else if ((pool.view E.pcoinsTip).coins (tx.getHash E.H)).isSome then .rejected 0
    else if tx.vin.any (fun txin => ((pool.view E.pcoinsTip).coins txin.prevout.hash).isNone) = true then .missingInputs
    else if (pool.view E.pcoinsTip).haveInputs tx = false then .rejected 0
    else
      match E.checkPolicy tx (pool.view E.pcoinsTip) with
      | .error e => .rejected e.nDoS
      | .ok _ => .accepted (pool.addUnchecked E.H tx)

/-! ## Orphans -/

structure COrphanTx where
  tx : CTransaction
  fromPeer : NodeId

structure TxNode where
  mempool : CTxMemPool
  mapOrphanTransactions : AList fun _ : UInt256 => COrphanTx
  /-- A `std::set` is the increasing list of its elements. -/
  mapOrphanTransactionsByPrev : AList fun _ : UInt256 => List UInt256

/-- `std::set::insert`. -/
def setInsert (hash : UInt256) (hashes : List UInt256) : List UInt256 :=
  if hash ∈ hashes then hashes else hashes.orderedInsert (fun a b => a.toNat ≤ b.toNat) hash

/-- `std::set::erase`. -/
def setErase (hash : UInt256) (hashes : List UInt256) : List UInt256 :=
  hashes.filter fun hash' => hash' ≠ hash

namespace TxNode

def start : TxNode :=
  ⟨.empty, ∅, ∅⟩

/-- `mapOrphanTransactionsByPrev[prev]`, for reading. -/
def byPrev (node : TxNode) (prev : UInt256) : List UInt256 :=
  (node.mapOrphanTransactionsByPrev.lookup prev).getD []

def addOrphanTx (E : TxEnv) (node : TxNode) (tx : CTransaction) (peer : NodeId) : TxNode :=
  let hash := tx.getHash E.H
  if (node.mapOrphanTransactions.lookup hash).isSome then node
  else if tx.serializeSize > 5000 then node
  else { node with
    mapOrphanTransactions := node.mapOrphanTransactions.insert hash ⟨tx, peer⟩
    mapOrphanTransactionsByPrev := tx.vin.foldl (fun byPrev txin =>
      byPrev.insert txin.prevout.hash (setInsert hash ((byPrev.lookup txin.prevout.hash).getD [])))
      node.mapOrphanTransactionsByPrev }

/-- One input of the loop of `EraseOrphanTx`. -/
def erasePrev (hash : UInt256) (byPrev : AList fun _ : UInt256 => List UInt256) (txin : CTxIn) :
    AList fun _ : UInt256 => List UInt256 :=
  match byPrev.lookup txin.prevout.hash with
  | none => byPrev
  | some hashes =>
    if setErase hash hashes = [] then byPrev.erase txin.prevout.hash
    else byPrev.insert txin.prevout.hash (setErase hash hashes)

def eraseOrphanTx (node : TxNode) (hash : UInt256) : TxNode :=
  match node.mapOrphanTransactions.lookup hash with
  | none => node
  | some orphan => { node with
    mapOrphanTransactions := node.mapOrphanTransactions.erase hash
    mapOrphanTransactionsByPrev := orphan.tx.vin.foldl (erasePrev hash) node.mapOrphanTransactionsByPrev }

/-- `lower_bound(randomhash)`, or the first key when there is none. -/
def lowerBound (keys : List UInt256) (randomhash : UInt256) : Option UInt256 :=
  let sorted := keys.mergeSort fun a b => a.toNat ≤ b.toNat
  (sorted.find? fun key => randomhash.toNat ≤ key.toNat).or sorted.head?

/-- `LimitOrphanTxSize`, with the hashes that are drawn; each of them evicts an orphan. -/
def limitOrphanTxSize (nMaxOrphans : Nat) : List UInt256 → TxNode → TxNode
  | [], node => node
  | randomhash :: draws, node =>
    if node.mapOrphanTransactions.keys.length > nMaxOrphans then
      match lowerBound node.mapOrphanTransactions.keys randomhash with
      | none => node
      | some hash => limitOrphanTxSize nMaxOrphans draws (node.eraseOrphanTx hash)
    else node

/-! ## The message -/

/-- The variables of the handler while orphans are looked at. -/
structure Queues where
  mempool : CTxMemPool
  vWorkQueue : List UInt256
  vEraseQueue : List UInt256
  setMisbehaving : List NodeId

/-- An orphan that spends an accepted transaction is looked at. -/
def lookAt (E : TxEnv) (node : TxNode) (q : Queues) (orphanHash : UInt256) : Queues :=
  match node.mapOrphanTransactions.lookup orphanHash with
  | none => q
  | some orphan =>
    let q := { q with vEraseQueue := q.vEraseQueue ++ [orphanHash] }
    if orphan.fromPeer ∈ q.setMisbehaving then q
    else
      match acceptToMemoryPool E q.mempool orphan.tx with
      | .accepted pool => { q with mempool := pool, vWorkQueue := q.vWorkQueue ++ [orphanHash] }
      | .missingInputs => q
      | .rejected nDoS => if nDoS > 0 then { q with setMisbehaving := orphan.fromPeer :: q.setMisbehaving } else q

/-- The loop over the work queue, from `i` on; `none` when it takes more rounds than `fuel`. -/
def workLoop (E : TxEnv) (node : TxNode) : Nat → Nat → Queues → Option Queues
  | fuel, i, q =>
    match q.vWorkQueue[i]? with
    | none => some q
    | some hash =>
      match fuel with
      | 0 => none
      | fuel + 1 => workLoop E node fuel (i + 1) ((node.byPrev hash).foldl (lookAt E node) q)

/-- The `tx` message. -/
def processTx (E : TxEnv) (node : TxNode) (tx : CTransaction) (peer : NodeId) (draws : List UInt256) : Option TxNode :=
  let hash := tx.getHash E.H
  match acceptToMemoryPool E node.mempool tx with
  | .accepted pool =>
    (workLoop E node (node.mapOrphanTransactions.keys.length + 1) 0 ⟨pool, [hash], [hash], []⟩).map fun q =>
      q.vEraseQueue.foldl eraseOrphanTx { node with mempool := q.mempool }
  | .missingInputs => some (limitOrphanTxSize E.nMaxOrphanTx draws (node.addOrphanTx E tx peer))
  | .rejected _ => some node

/-- A message with what is drawn while it is handled. -/
structure TxMessage where
  tx : CTransaction
  peer : NodeId
  draws : List UInt256

def deliver (E : TxEnv) (msgs : List TxMessage) : Option TxNode :=
  msgs.foldlM (fun node msg => node.processTx E msg.tx msg.peer msg.draws) start

end TxNode

end Dobbscoin

/-!
# Stored orphans

What `AddOrphanTx`, `EraseOrphanTx` and `LimitOrphanTxSize` leave in the two maps: the second one is the index of the
first by the transactions that orphans spend.
-/

namespace Dobbscoin

/-! ## Sets of hashes -/

@[simp]
theorem mem_setInsert {hash hash' : UInt256} {hashes : List UInt256} :
    hash' ∈ setInsert hash hashes ↔ hash' = hash ∨ hash' ∈ hashes := by
  unfold setInsert
  split_ifs with hin
  · constructor
    · exact .inr
    · rintro (rfl | h)
      · exact hin
      · exact h
  · rw [List.mem_orderedInsert]

@[simp]
theorem mem_setErase {hash hash' : UInt256} {hashes : List UInt256} :
    hash' ∈ setErase hash hashes ↔ hash' ∈ hashes ∧ hash' ≠ hash := by
  simp [setErase]

/-! ## The index -/

/-- The entry of the index for `prev`. -/
def entryOf (byPrev : AList fun _ : UInt256 => List UInt256) (prev : UInt256) : List UInt256 :=
  (byPrev.lookup prev).getD []

/-- Some input spends an output of the transaction `prev`. -/
def SpendsHash (vin : List CTxIn) (prev : UInt256) : Prop :=
  ∃ txin ∈ vin, txin.prevout.hash = prev

theorem entryOf_insert (byPrev : AList fun _ : UInt256 => List UInt256) (prev prev' : UInt256) (hashes : List UInt256) :
    entryOf (byPrev.insert prev hashes) prev' = if prev' = prev then hashes else entryOf byPrev prev' := by
  unfold entryOf
  split_ifs with heq
  · rw [heq, AList.lookup_insert, Option.getD_some]
  · rw [AList.lookup_insert_ne heq]

theorem entryOf_erase (byPrev : AList fun _ : UInt256 => List UInt256) (prev prev' : UInt256) :
    entryOf (byPrev.erase prev) prev' = if prev' = prev then [] else entryOf byPrev prev' := by
  unfold entryOf
  split_ifs with heq
  · rw [heq, AList.lookup_erase, Option.getD_none]
  · rw [AList.lookup_erase_ne heq]

theorem mem_entryOf_addPrevs (hash hash' prev : UInt256) (vin : List CTxIn) :
    ∀ byPrev : AList fun _ : UInt256 => List UInt256,
      hash' ∈ entryOf (vin.foldl (fun byPrev txin =>
        byPrev.insert txin.prevout.hash (setInsert hash ((byPrev.lookup txin.prevout.hash).getD []))) byPrev) prev ↔
      hash' ∈ entryOf byPrev prev ∨ hash' = hash ∧ SpendsHash vin prev := by
  induction vin with
  | nil => simp [SpendsHash]
  | cons txin vin ih =>
    intro byPrev
    rw [List.foldl_cons, ih, entryOf_insert]
    simp only [SpendsHash, List.mem_cons, exists_eq_or_imp]
    split_ifs with heq
    · rw [mem_setInsert, heq, eq_self_iff_true, true_or, and_true]
      change (_ ∨ hash' ∈ entryOf byPrev txin.prevout.hash) ∨ _ ↔ _
      tauto
    · rw [eq_false (Ne.symm heq), false_or]

theorem entryOf_erasePrev (hash : UInt256) (byPrev : AList fun _ : UInt256 => List UInt256) (txin : CTxIn)
    (prev : UInt256) :
    entryOf (TxNode.erasePrev hash byPrev txin) prev =
      if prev = txin.prevout.hash then setErase hash (entryOf byPrev prev) else entryOf byPrev prev := by
  unfold TxNode.erasePrev
  cases hlookup : byPrev.lookup txin.prevout.hash with
  | none =>
    split_ifs with heq
    · rw [heq, entryOf, hlookup]
      rfl
    · rfl
  | some hashes =>
    have hentry : entryOf byPrev txin.prevout.hash = hashes := by rw [entryOf, hlookup, Option.getD_some]
    dsimp only
    by_cases hempty : setErase hash hashes = []
    · rw [if_pos hempty, entryOf_erase]
      split_ifs with heq
      · rw [heq, hentry, hempty]
      · rfl
    · rw [if_neg hempty, entryOf_insert]
      split_ifs with heq
      · rw [heq, hentry]
      · rfl

theorem mem_entryOf_erasePrevs (hash hash' prev : UInt256) (vin : List CTxIn) :
    ∀ byPrev : AList fun _ : UInt256 => List UInt256,
      hash' ∈ entryOf (vin.foldl (TxNode.erasePrev hash) byPrev) prev ↔
      hash' ∈ entryOf byPrev prev ∧ ¬(hash' = hash ∧ SpendsHash vin prev) := by
  induction vin with
  | nil => simp [SpendsHash]
  | cons txin vin ih =>
    intro byPrev
    rw [List.foldl_cons, ih, entryOf_erasePrev]
    simp only [SpendsHash, List.mem_cons, exists_eq_or_imp]
    split_ifs with heq
    · rw [mem_setErase, heq, eq_self_iff_true, true_or, and_true]
      tauto
    · rw [eq_false (Ne.symm heq), false_or]

/-! ## Orphans and their index -/

variable {E : TxEnv} {node : TxNode} {hash : UInt256} {tx : CTransaction}

namespace TxNode

/-- Each orphan is stored under its hash, and indexed by what it spends. -/
def Stored (E : TxEnv) (node : TxNode) : Prop :=
  (∀ hash orphan, node.mapOrphanTransactions.lookup hash = some orphan → orphan.tx.getHash E.H = hash) ∧
    ∀ prev hash, hash ∈ node.byPrev prev ↔
      ∃ orphan, node.mapOrphanTransactions.lookup hash = some orphan ∧ SpendsHash orphan.tx.vin prev

/-- A transaction is one of the orphans. -/
def Waits (E : TxEnv) (node : TxNode) (tx : CTransaction) : Prop :=
  ∃ orphan, node.mapOrphanTransactions.lookup (tx.getHash E.H) = some orphan ∧ orphan.tx = tx

theorem stored_start : Stored E start := by
  refine ⟨fun _ _ h => ?_, fun _ _ => ⟨fun h => absurd h List.not_mem_nil, ?_⟩⟩
  · cases h
  · rintro ⟨_, h, _⟩
    cases h

theorem Stored.waits (h : Stored E node) {orphan : COrphanTx}
    (hlookup : node.mapOrphanTransactions.lookup hash = some orphan) :
    node.Waits E orphan.tx ∧ orphan.tx.getHash E.H = hash := by
  have hhash := h.1 hash orphan hlookup
  exact ⟨⟨orphan, by rw [hhash]; exact hlookup, rfl⟩, hhash⟩

theorem Stored.mem_byPrev (h : Stored E node) (htx : node.Waits E tx) (prev : UInt256) :
    tx.getHash E.H ∈ node.byPrev prev ↔ SpendsHash tx.vin prev := by
  rcases htx with ⟨orphan, hlookup, rfl⟩
  rw [h.2, hlookup]
  simp only [Option.some.injEq, exists_eq_left']

/-! ## A new orphan -/

theorem addOrphanTx_eq (hnew : node.mapOrphanTransactions.lookup (tx.getHash E.H) = none)
    (hsmall : tx.serializeSize ≤ 5000) (peer : NodeId) :
    node.addOrphanTx E tx peer = { node with
      mapOrphanTransactions := node.mapOrphanTransactions.insert (tx.getHash E.H) ⟨tx, peer⟩
      mapOrphanTransactionsByPrev := tx.vin.foldl (fun byPrev txin =>
        byPrev.insert txin.prevout.hash (setInsert (tx.getHash E.H) ((byPrev.lookup txin.prevout.hash).getD [])))
        node.mapOrphanTransactionsByPrev } := by
  simp only [addOrphanTx, hnew, Option.isSome_none, Bool.false_eq_true, if_false, if_neg (Nat.not_lt.2 hsmall)]

theorem Stored.addOrphanTx (h : Stored E node) (hnew : node.mapOrphanTransactions.lookup (tx.getHash E.H) = none)
    (hsmall : tx.serializeSize ≤ 5000) (peer : NodeId) : Stored E (node.addOrphanTx E tx peer) := by
  rw [addOrphanTx_eq hnew hsmall]
  refine ⟨fun hash orphan hlookup => ?_, fun prev hash => ?_⟩
  · by_cases heq : hash = tx.getHash E.H
    · rw [heq, AList.lookup_insert, Option.some.injEq] at hlookup
      rw [heq, ← hlookup]
    · rw [AList.lookup_insert_ne heq] at hlookup
      exact h.1 hash orphan hlookup
  · refine (mem_entryOf_addPrevs _ hash prev tx.vin _).trans ?_
    have hbefore : hash ∈ entryOf node.mapOrphanTransactionsByPrev prev ↔ _ := h.2 prev hash
    rw [hbefore]
    by_cases heq : hash = tx.getHash E.H
    · rw [heq, hnew, AList.lookup_insert]
      simp
    · rw [AList.lookup_insert_ne heq]
      simp [heq]

theorem waits_addOrphanTx (hnew : node.mapOrphanTransactions.lookup (tx.getHash E.H) = none)
    (hsmall : tx.serializeSize ≤ 5000) (peer : NodeId) (tx' : CTransaction) :
    (node.addOrphanTx E tx peer).Waits E tx' ↔ tx' = tx ∨ node.Waits E tx' := by
  rw [addOrphanTx_eq hnew hsmall, Waits, Waits]
  by_cases heq : tx'.getHash E.H = tx.getHash E.H
  · rw [heq, AList.lookup_insert, hnew]
    simp [eq_comm]
  · rw [AList.lookup_insert_ne heq]
    exact ⟨.inr, fun h => h.resolve_left fun hsame => heq (by rw [hsame])⟩

/-! ## Erased orphans -/

theorem lookup_eraseOrphanTx (hash' : UInt256) :
    (node.eraseOrphanTx hash).mapOrphanTransactions.lookup hash' =
      if hash' = hash then none else node.mapOrphanTransactions.lookup hash' := by
  unfold eraseOrphanTx
  split
  · split_ifs with heq
    · rwa [heq]
    · rfl
  · split_ifs with heq
    · rw [heq]
      exact AList.lookup_erase _ _
    · exact AList.lookup_erase_ne heq

theorem Stored.eraseOrphanTx (h : Stored E node) (hash : UInt256) : Stored E (node.eraseOrphanTx hash) := by
  refine ⟨fun hash' orphan hlookup => ?_, fun prev hash' => ?_⟩
  · rw [lookup_eraseOrphanTx] at hlookup
    split_ifs at hlookup
    exact h.1 hash' orphan hlookup
  · rw [lookup_eraseOrphanTx]
    unfold TxNode.eraseOrphanTx
    cases hlookup : node.mapOrphanTransactions.lookup hash with
    | none =>
      rw [h.2]
      split_ifs with heq
      · subst heq
        simp [hlookup]
      · rfl
    | some orphan =>
      refine (mem_entryOf_erasePrevs hash hash' prev orphan.tx.vin _).trans ?_
      have hbefore : hash' ∈ entryOf node.mapOrphanTransactionsByPrev prev ↔ _ := h.2 prev hash'
      rw [hbefore]
      split_ifs with heq
      · rw [heq, hlookup]
        simp
      · simp [heq]

theorem eraseOrphanTx_mempool : (node.eraseOrphanTx hash).mempool = node.mempool := by
  unfold eraseOrphanTx
  split <;> rfl

/-- The loop over the erase queue. -/
theorem lookup_eraseOrphanTxs (hash' : UInt256) (hashes : List UInt256) :
    ∀ node : TxNode, (hashes.foldl eraseOrphanTx node).mapOrphanTransactions.lookup hash' =
      if hash' ∈ hashes then none else node.mapOrphanTransactions.lookup hash' := by
  induction hashes with
  | nil => exact fun _ => rfl
  | cons hash hashes ih =>
    intro node
    rw [List.foldl_cons, ih, lookup_eraseOrphanTx]
    by_cases heq : hash' = hash
    · simp [heq]
    · simp [heq]

theorem Stored.eraseOrphanTxs (hashes : List UInt256) :
    ∀ {node : TxNode}, Stored E node → Stored E (hashes.foldl TxNode.eraseOrphanTx node) := by
  induction hashes with
  | nil => exact fun h => h
  | cons hash hashes ih => exact fun h => ih (h.eraseOrphanTx hash)

theorem eraseOrphanTxs_mempool (hashes : List UInt256) :
    ∀ node : TxNode, (hashes.foldl eraseOrphanTx node).mempool = node.mempool := by
  induction hashes with
  | nil => exact fun _ => rfl
  | cons hash hashes ih => exact fun node => (ih _).trans eraseOrphanTx_mempool

theorem waits_eraseOrphanTxs (hashes : List UInt256) (node : TxNode) (tx : CTransaction) :
    (hashes.foldl eraseOrphanTx node).Waits E tx ↔ node.Waits E tx ∧ tx.getHash E.H ∉ hashes := by
  rw [Waits, Waits, lookup_eraseOrphanTxs]
  split_ifs with hin
  · simp [hin]
  · simp [hin]

/-! ## The limit -/

/-- Nothing is evicted below the limit. -/
theorem limitOrphanTxSize_of_le {nMaxOrphans : Nat} (hle : node.mapOrphanTransactions.keys.length ≤ nMaxOrphans)
    (draws : List UInt256) : limitOrphanTxSize nMaxOrphans draws node = node := by
  cases draws with
  | nil => rfl
  | cons _ _ => exact if_neg (Nat.not_lt.2 hle)

end TxNode

end Dobbscoin
