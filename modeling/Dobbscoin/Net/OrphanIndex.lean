import Dobbscoin.Net.Orphans

/-!
# The index of the orphans

Any calls of `AddOrphanTx`, `EraseOrphanTx`, `EraseOrphansFor` and `LimitOrphanTxSize`, one after another.
-/

namespace Dobbscoin

namespace TxNode

variable {E : TxEnv} {node : TxNode} {hash : UInt256} {tx : CTransaction}

/-! ## The orphans of a peer -/

/-- The loop of `EraseOrphansFor` over what is left of the map; it is `none` when its iterator is no longer valid. -/
def eraseOrphansLoop (E : TxEnv) (peer : NodeId) : List UInt256 → TxNode → Option TxNode
  | [], node => some node
  | key :: rest, node =>
    match node.mapOrphanTransactions.lookup key with
    | none => none
    | some maybeErase =>
      if maybeErase.fromPeer = peer then eraseOrphansLoop E peer rest (node.eraseOrphanTx (maybeErase.tx.getHash E.H))
      else eraseOrphansLoop E peer rest node

def eraseOrphansFor (E : TxEnv) (node : TxNode) (peer : NodeId) : Option TxNode :=
  eraseOrphansLoop E peer (node.mapOrphanTransactions.keys.mergeSort fun a b => a.toNat ≤ b.toNat) node

/-! ## Calls -/

inductive OrphanCall where
  | addOrphanTx (tx : CTransaction) (peer : NodeId)
  | eraseOrphanTx (hash : UInt256)
  | eraseOrphansFor (peer : NodeId)
  /-- With all that `GetRandHash` would return. -/
  | limitOrphanTxSize (nMaxOrphans : Nat) (randHash : Nat → UInt256)

/-- `LimitOrphanTxSize` draws at most as many hashes as there are orphans. -/
def limited (node : TxNode) (nMaxOrphans : Nat) (randHash : Nat → UInt256) : TxNode :=
  limitOrphanTxSize nMaxOrphans ((List.range node.mapOrphanTransactions.keys.length).map randHash) node

def call (E : TxEnv) (node : TxNode) : OrphanCall → Option TxNode
  | .addOrphanTx tx peer => some (node.addOrphanTx E tx peer)
  | .eraseOrphanTx hash => some (node.eraseOrphanTx hash)
  | .eraseOrphansFor peer => node.eraseOrphansFor E peer
  | .limitOrphanTxSize nMaxOrphans randHash => some (node.limited nMaxOrphans randHash)

/-! ## The index holds nothing else -/

/-- The sets of an index are not empty, and have no element twice. -/
def TidyIndex (byPrev : AList fun _ : UInt256 => List UInt256) : Prop :=
  ∀ prev hashes, byPrev.lookup prev = some hashes → hashes ≠ [] ∧ hashes.Nodup

theorem nodup_setInsert {hashes : List UInt256} (h : hashes.Nodup) : (setInsert hash hashes).Nodup := by
  unfold setInsert
  split_ifs with hin
  · exact h
  · exact (List.perm_orderedInsert _ hash hashes).nodup_iff.2 (List.nodup_cons.2 ⟨hin, h⟩)

theorem TidyIndex.insert {byPrev : AList fun _ : UInt256 => List UInt256} (h : TidyIndex byPrev) {prev : UInt256}
    {hashes : List UInt256} (hne : hashes ≠ []) (hnodup : hashes.Nodup) : TidyIndex (byPrev.insert prev hashes) := by
  intro prev' hashes' hlookup
  by_cases heq : prev' = prev
  · rw [heq, AList.lookup_insert] at hlookup
    cases hlookup
    exact ⟨hne, hnodup⟩
  · rw [AList.lookup_insert_ne heq] at hlookup
    exact h prev' hashes' hlookup

theorem TidyIndex.erase {byPrev : AList fun _ : UInt256 => List UInt256} (h : TidyIndex byPrev) (prev : UInt256) :
    TidyIndex (byPrev.erase prev) := by
  intro prev' hashes hlookup
  by_cases heq : prev' = prev
  · rw [heq, AList.lookup_erase] at hlookup
    cases hlookup
  · rw [AList.lookup_erase_ne heq] at hlookup
    exact h prev' hashes hlookup

/-- The loop over the inputs of a new orphan, with the same parent several times or not. -/
theorem TidyIndex.addPrevs (hash : UInt256) (vin : List CTxIn) :
    ∀ {byPrev : AList fun _ : UInt256 => List UInt256}, TidyIndex byPrev → TidyIndex (vin.foldl (fun byPrev txin =>
      byPrev.insert txin.prevout.hash (setInsert hash ((byPrev.lookup txin.prevout.hash).getD []))) byPrev) := by
  induction vin with
  | nil => exact fun h => h
  | cons txin vin ih =>
    intro byPrev h
    refine ih (h.insert ?_ (nodup_setInsert ?_))
    · exact List.ne_nil_of_mem (mem_setInsert.2 (Or.inl rfl))
    · cases hlookup : byPrev.lookup txin.prevout.hash with
      | none => exact List.nodup_nil
      | some hashes => exact (h _ hashes hlookup).2

/-- The loop over the inputs of an erased orphan: a parent whose set is gone already is passed over. -/
theorem TidyIndex.erasePrevs (hash : UInt256) (vin : List CTxIn) :
    ∀ {byPrev : AList fun _ : UInt256 => List UInt256}, TidyIndex byPrev →
      TidyIndex (vin.foldl (erasePrev hash) byPrev) := by
  induction vin with
  | nil => exact fun h => h
  | cons txin vin ih =>
    intro byPrev h
    refine ih ?_
    unfold erasePrev
    split
    · exact h
    · rename_i hashes hlookup
      split_ifs with hempty
      · exact h.erase _
      · exact h.insert hempty ((h _ hashes hlookup).2.filter _)

/-! ## What holds after every call -/

structure Exact (E : TxEnv) (node : TxNode) : Prop where
  stored : Stored E node
  tidy : TidyIndex node.mapOrphanTransactionsByPrev
  small : ∀ hash orphan, node.mapOrphanTransactions.lookup hash = some orphan → orphan.tx.serializeSize ≤ 5000

theorem exact_start : Exact E start := by
  refine ⟨stored_start, fun prev hashes hlookup => ?_, fun hash orphan hlookup => ?_⟩
  · cases hlookup
  · cases hlookup

theorem Exact.addOrphanTx (h : Exact E node) (tx : CTransaction) (peer : NodeId) : Exact E (node.addOrphanTx E tx peer) := by
  cases hlookup : node.mapOrphanTransactions.lookup (tx.getHash E.H) with
  | some orphan =>
    have hsame : node.addOrphanTx E tx peer = node := by
      simp only [TxNode.addOrphanTx, hlookup, Option.isSome_some, if_true]
    rwa [hsame]
  | none =>
    by_cases hsize : tx.serializeSize > 5000
    · have hsame : node.addOrphanTx E tx peer = node := by
        simp only [TxNode.addOrphanTx, hlookup, Option.isSome_none, Bool.false_eq_true, if_false, if_pos hsize]
      rwa [hsame]
    · have hsmall := Nat.le_of_not_lt hsize
      refine ⟨h.stored.addOrphanTx hlookup hsmall peer, ?_, fun hash orphan hin => ?_⟩
      · rw [addOrphanTx_eq hlookup hsmall]
        exact h.tidy.addPrevs _ tx.vin
      · rw [addOrphanTx_eq hlookup hsmall] at hin
        by_cases heq : hash = tx.getHash E.H
        · rw [heq, AList.lookup_insert] at hin
          cases hin
          exact hsmall
        · rw [AList.lookup_insert_ne heq] at hin
          exact h.small hash orphan hin

theorem Exact.eraseOrphanTx (h : Exact E node) (hash : UInt256) : Exact E (node.eraseOrphanTx hash) := by
  refine ⟨h.stored.eraseOrphanTx hash, ?_, fun hash' orphan hin => ?_⟩
  · unfold TxNode.eraseOrphanTx
    split
    · exact h.tidy
    · exact h.tidy.erasePrevs hash _
  · rw [lookup_eraseOrphanTx] at hin
    split_ifs at hin
    exact h.small hash' orphan hin

/-! ## EraseOrphansFor -/

/-- The loop stays on valid iterators: what it erases is what it has just passed. -/
theorem eraseOrphansLoop_spec {peer : NodeId} {keys : List UInt256} (hnodup : keys.Nodup) :
    ∀ {node : TxNode}, Exact E node → (∀ key ∈ keys, ∃ orphan, node.mapOrphanTransactions.lookup key = some orphan) →
      ∃ node', eraseOrphansLoop E peer keys node = some node' ∧ Exact E node' ∧
        ∀ hash orphan, node'.mapOrphanTransactions.lookup hash = some orphan ↔
          node.mapOrphanTransactions.lookup hash = some orphan ∧ ¬(hash ∈ keys ∧ orphan.fromPeer = peer) := by
  induction keys with
  | nil =>
    intro node h _
    refine ⟨node, rfl, h, fun hash orphan => ?_⟩
    simp
  | cons key keys ih =>
    intro node h hkeys
    rcases List.nodup_cons.1 hnodup with ⟨hnotin, hnodup'⟩
    rcases hkeys key List.mem_cons_self with ⟨maybeErase, hlookup⟩
    by_cases hpeer : maybeErase.fromPeer = peer
    · have hkey : maybeErase.tx.getHash E.H = key := h.stored.1 key maybeErase hlookup
      have hrest : ∀ key' ∈ keys, ∃ orphan, (node.eraseOrphanTx key).mapOrphanTransactions.lookup key' = some orphan := by
        intro key' hin
        have hne : key' ≠ key := fun heq => hnotin (heq ▸ hin)
        rw [lookup_eraseOrphanTx, if_neg hne]
        exact hkeys key' (List.mem_cons_of_mem key hin)
      rcases ih hnodup' (h.eraseOrphanTx key) hrest with ⟨node', hrun, hexact, hiff⟩
      refine ⟨node', ?_, hexact, fun hash orphan => (hiff hash orphan).trans ?_⟩
      · simp only [eraseOrphansLoop, hlookup, if_pos hpeer, hkey]
        exact hrun
      · rw [lookup_eraseOrphanTx, List.mem_cons]
        by_cases heq : hash = key
        · subst heq
          rw [if_pos rfl, hlookup]
          constructor
          · rintro ⟨hnone, -⟩
            cases hnone
          · rintro ⟨hsome, hkept⟩
            cases hsome
            exact absurd ⟨Or.inl rfl, hpeer⟩ hkept
        · rw [if_neg heq, or_iff_right heq]
    · rcases ih hnodup' h fun key' hin => hkeys key' (List.mem_cons_of_mem key hin) with ⟨node', hrun, hexact, hiff⟩
      refine ⟨node', ?_, hexact, fun hash orphan => (hiff hash orphan).trans (and_congr_right fun hin => ?_)⟩
      · simp only [eraseOrphansLoop, hlookup, if_neg hpeer]
        exact hrun
      · refine not_congr (and_congr_left fun hfrom => ?_)
        have hne : hash ≠ key := by
          rintro rfl
          rw [hlookup] at hin
          cases hin
          exact hpeer hfrom
        exact (List.mem_cons.trans (or_iff_right hne)).symm

theorem lookup_iff_mem_keys {hash : UInt256} :
    hash ∈ node.mapOrphanTransactions.keys ↔ ∃ orphan, node.mapOrphanTransactions.lookup hash = some orphan := by
  rw [← AList.mem_keys, ← AList.lookup_isSome, Option.isSome_iff_exists]

/-- No orphan of the peer is left, and no other is removed. -/
theorem Exact.eraseOrphansFor (h : Exact E node) (peer : NodeId) :
    ∃ node', node.eraseOrphansFor E peer = some node' ∧ Exact E node' ∧
      ∀ hash orphan, node'.mapOrphanTransactions.lookup hash = some orphan ↔
        node.mapOrphanTransactions.lookup hash = some orphan ∧ orphan.fromPeer ≠ peer := by
  have hperm := List.mergeSort_perm node.mapOrphanTransactions.keys fun a b => decide (a.toNat ≤ b.toNat)
  have hnodup := hperm.nodup_iff.2 node.mapOrphanTransactions.keys_nodup
  have hloop : ∃ node', node.eraseOrphansFor E peer = some node' ∧ Exact E node' ∧
      ∀ hash orphan, node'.mapOrphanTransactions.lookup hash = some orphan ↔
        node.mapOrphanTransactions.lookup hash = some orphan ∧
          ¬(hash ∈ node.mapOrphanTransactions.keys.mergeSort (fun a b => decide (a.toNat ≤ b.toNat)) ∧
            orphan.fromPeer = peer) :=
    eraseOrphansLoop_spec hnodup h fun key hkey => lookup_iff_mem_keys.1 (hperm.mem_iff.1 hkey)
  rcases hloop with ⟨node', hrun, hexact, hiff⟩
  refine ⟨node', hrun, hexact, fun hash orphan => (hiff hash orphan).trans (and_congr_right fun hin => ?_)⟩
  refine not_congr (and_iff_right ?_)
  exact hperm.mem_iff.2 (lookup_iff_mem_keys.2 ⟨orphan, hin⟩)

/-! ## LimitOrphanTxSize -/

theorem lowerBound_spec {keys : List UInt256} (hne : keys ≠ []) (randomhash : UInt256) :
    ∃ key ∈ keys, lowerBound keys randomhash = some key := by
  have hperm := List.mergeSort_perm keys fun a b => decide (a.toNat ≤ b.toNat)
  generalize hsorted : keys.mergeSort (fun a b => decide (a.toNat ≤ b.toNat)) = sorted at hperm
  have hlower : lowerBound keys randomhash =
      (sorted.find? fun key => decide (randomhash.toNat ≤ key.toNat)).or sorted.head? := by rw [← hsorted]; rfl
  cases hfind : sorted.find? fun key => decide (randomhash.toNat ≤ key.toNat) with
  | some key =>
    refine ⟨key, hperm.mem_iff.1 (List.mem_of_find?_eq_some hfind), ?_⟩
    rw [hlower, hfind, Option.some_or]
  | none =>
    cases sorted with
    | nil => exact absurd hperm.symm.eq_nil hne
    | cons key rest =>
      refine ⟨key, hperm.mem_iff.1 List.mem_cons_self, ?_⟩
      rw [hlower, hfind, Option.none_or, List.head?_cons]

theorem keys_length_eraseOrphanTx (hin : hash ∈ node.mapOrphanTransactions.keys) :
    (node.eraseOrphanTx hash).mapOrphanTransactions.keys.length + 1 = node.mapOrphanTransactions.keys.length := by
  rcases lookup_iff_mem_keys.1 hin with ⟨orphan, hlookup⟩
  unfold eraseOrphanTx
  rw [hlookup]
  dsimp only
  rw [AList.keys_erase, List.length_erase_of_mem hin]
  exact Nat.succ_pred_eq_of_pos (List.length_pos_of_mem hin)

/-- Each draw evicts one orphan, as long as there are too many of them. -/
theorem limitOrphanTxSize_spec {nMaxOrphans : Nat} (draws : List UInt256) :
    ∀ {node : TxNode}, Exact E node → node.mapOrphanTransactions.keys.length ≤ nMaxOrphans + draws.length →
      Exact E (limitOrphanTxSize nMaxOrphans draws node) ∧
        (limitOrphanTxSize nMaxOrphans draws node).mapOrphanTransactions.keys.length ≤ nMaxOrphans ∧
        ∀ more, limitOrphanTxSize nMaxOrphans (draws ++ more) node = limitOrphanTxSize nMaxOrphans draws node := by
  induction draws with
  | nil =>
    intro node h hle
    exact ⟨h, hle, fun more => limitOrphanTxSize_of_le hle more⟩
  | cons randomhash draws ih =>
    intro node h hle
    by_cases hmany : node.mapOrphanTransactions.keys.length > nMaxOrphans
    · have hne : node.mapOrphanTransactions.keys ≠ [] := List.ne_nil_of_length_pos (Nat.zero_lt_of_lt hmany)
      rcases lowerBound_spec hne randomhash with ⟨key, hin, hlower⟩
      have hstep : ∀ rest, limitOrphanTxSize nMaxOrphans (randomhash :: rest) node =
          limitOrphanTxSize nMaxOrphans rest (node.eraseOrphanTx key) := fun rest => by
        rw [limitOrphanTxSize, if_pos hmany, hlower]
      have hlength := keys_length_eraseOrphanTx hin
      rw [List.length_cons] at hle
      simp only [List.cons_append, hstep]
      exact ih (h.eraseOrphanTx key) (by omega)
    · have hstop := Nat.le_of_not_gt hmany
      have hsame : ∀ rest, limitOrphanTxSize nMaxOrphans rest node = node := limitOrphanTxSize_of_le hstop
      rw [hsame]
      exact ⟨h, hstop, fun more => hsame _⟩

theorem Exact.limited (h : Exact E node) (nMaxOrphans : Nat) (randHash : Nat → UInt256) :
    Exact E (node.limited nMaxOrphans randHash) ∧
      (node.limited nMaxOrphans randHash).mapOrphanTransactions.keys.length ≤ nMaxOrphans ∧
      ∀ more, limitOrphanTxSize nMaxOrphans
          ((List.range node.mapOrphanTransactions.keys.length).map randHash ++ more) node =
        node.limited nMaxOrphans randHash := by
  refine limitOrphanTxSize_spec _ h ?_
  rw [List.length_map, List.length_range]
  exact Nat.le_add_left _ _

/-! ## Runs -/

/-- **Step.** -/
theorem Exact.call (h : Exact E node) (c : OrphanCall) : ∃ node', node.call E c = some node' ∧ Exact E node' := by
  cases c with
  | addOrphanTx tx peer => exact ⟨_, rfl, h.addOrphanTx tx peer⟩
  | eraseOrphanTx hash => exact ⟨_, rfl, h.eraseOrphanTx hash⟩
  | eraseOrphansFor peer =>
    rcases h.eraseOrphansFor peer with ⟨node', hrun, hexact, -⟩
    exact ⟨node', hrun, hexact⟩
  | limitOrphanTxSize nMaxOrphans randHash => exact ⟨_, rfl, (h.limited nMaxOrphans randHash).1⟩

/-- **Run.** -/
theorem Exact.calls (calls : List OrphanCall) :
    ∀ {node : TxNode}, Exact E node → ∃ node', calls.foldlM (TxNode.call E) node = some node' ∧ Exact E node' := by
  induction calls with
  | nil => exact fun {node} h => ⟨node, rfl, h⟩
  | cons c calls ih =>
    intro node h
    rcases h.call c with ⟨node₁, hstep, h₁⟩
    rcases ih h₁ with ⟨node', hrun, h'⟩
    refine ⟨node', ?_, h'⟩
    rw [List.foldlM_cons, hstep]
    exact hrun

/-- After any calls the index is exact and every orphan is small; `EraseOrphansFor` removes the orphans of the peer and
no others, and `LimitOrphanTxSize` stops with at most `nMaxOrphans` of them, whatever is drawn. -/
theorem orphans_exact (E : TxEnv) (calls : List OrphanCall) :
    ∃ node, calls.foldlM (call E) start = some node ∧ Exact E node ∧
      (∀ peer, ∃ node', node.eraseOrphansFor E peer = some node' ∧
        ∀ hash orphan, node'.mapOrphanTransactions.lookup hash = some orphan ↔
          node.mapOrphanTransactions.lookup hash = some orphan ∧ orphan.fromPeer ≠ peer) ∧
      ∀ nMaxOrphans randHash,
        (node.limited nMaxOrphans randHash).mapOrphanTransactions.keys.length ≤ nMaxOrphans ∧
        (∀ more, limitOrphanTxSize nMaxOrphans
            ((List.range node.mapOrphanTransactions.keys.length).map randHash ++ more) node =
          node.limited nMaxOrphans randHash) ∧
        (node.mapOrphanTransactions.keys.length ≤ nMaxOrphans → node.limited nMaxOrphans randHash = node) := by
  have hstart : Exact E start := exact_start
  rcases hstart.calls calls with ⟨node, hrun, h⟩
  refine ⟨node, hrun, h, fun peer => ?_, fun nMaxOrphans randHash => ?_⟩
  · rcases h.eraseOrphansFor peer with ⟨node', herase, -, hiff⟩
    exact ⟨node', herase, hiff⟩
  · rcases h.limited nMaxOrphans randHash with ⟨-, hsize, hstop⟩
    exact ⟨hsize, hstop, fun hle => limitOrphanTxSize_of_le hle _⟩

end TxNode

end Dobbscoin
