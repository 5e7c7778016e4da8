import Dobbscoin.Lib.Backlog
import Dobbscoin.Net.Orphans

/-!
# Orders of arrival

What the `tx` message does with transactions that all could be accepted: it is the backlog of `Lib/Backlog.lean`, where
an orphan that was looked at is not kept.
-/

namespace Dobbscoin

open Backlog

/-! ## Pools -/

namespace CTxMemPool

/-- The pool that some transactions have been added to. -/
def ofList (H : Crypto) (txs : List CTransaction) : CTxMemPool :=
  txs.foldl (addUnchecked H) empty

theorem ofList_concat (H : Crypto) (txs : List CTransaction) (tx : CTransaction) :
    ofList H (txs ++ [tx]) = (ofList H txs).addUnchecked H tx := by
  rw [ofList, List.foldl_append]
  rfl

theorem addInputs_isSome (hash : UInt256) (o : COutPoint) (vin : List CTxIn) :
    ∀ {i : Nat} {mapNextTx : AList fun _ : COutPoint => UInt256 × Nat},
      ((addInputs hash i vin mapNextTx).lookup o).isSome ↔
        (mapNextTx.lookup o).isSome ∨ ∃ txin ∈ vin, txin.prevout = o := by
  induction vin with
  | nil => simp [addInputs]
  | cons txin vin ih =>
    intro i mapNextTx
    rw [addInputs, ih]
    by_cases heq : o = txin.prevout
    · subst heq
      simp
    · simp [AList.lookup_insert_ne heq, Ne.symm heq]

theorem ofList_mapNextTx (H : Crypto) (o : COutPoint) (txs : List CTransaction) :
    ((ofList H txs).mapNextTx.lookup o).isSome ↔ ∃ tx ∈ txs, ∃ txin ∈ tx.vin, txin.prevout = o := by
  induction txs using List.reverseRecOn with
  | nil => simp [ofList, empty]
  | append_singleton txs tx ih =>
    rw [ofList_concat, addUnchecked, addInputs_isSome, ih]
    simp only [List.mem_append, List.mem_singleton, or_and_right, exists_or, exists_eq_left]

/-- With different hashes, the pool has the transactions that were added. -/
theorem ofList_mapTx {H : Crypto} {txs : List CTransaction} (hdistinct : (txs.map (CTransaction.getHash H)).Nodup)
    (hash : UInt256) (tx : CTransaction) :
    (ofList H txs).mapTx.lookup hash = some tx ↔ tx ∈ txs ∧ tx.getHash H = hash := by
  induction txs using List.reverseRecOn with
  | nil => simp [ofList, empty]
  | append_singleton txs tx' ih =>
    rw [List.map_append, List.map_singleton, ← List.concat_eq_append, List.nodup_concat] at hdistinct
    rw [ofList_concat, addUnchecked, List.mem_append, List.mem_singleton]
    by_cases heq : hash = tx'.getHash H
    · rw [heq, AList.lookup_insert, Option.some.injEq]
      constructor
      · rintro rfl
        exact ⟨.inr rfl, rfl⟩
      · rintro ⟨hin | rfl, hhash⟩
        · exact absurd (List.mem_map.2 ⟨tx, hin, hhash⟩) hdistinct.1
        · rfl
    · rw [AList.lookup_insert_ne heq, ih hdistinct.2]
      constructor
      · exact fun h => ⟨.inl h.1, h.2⟩
      · rintro ⟨hin | rfl, hhash⟩
        · exact ⟨hin, hhash⟩
        · exact absurd hhash.symm heq

end CTxMemPool

open CTxMemPool

/-! ## Acceptance -/

/-- The rules that do not depend on the pool. -/
def CTransaction.FitFor (E : TxEnv) (tx : CTransaction) : Prop :=
  checkTransaction tx = .ok () ∧ tx.isCoinBase = false ∧ E.isStandardTx tx = true

variable {E : TxEnv} {pool pool' : CTxMemPool} {tx : CTransaction}

/-- What has been accepted has passed all checks. -/
theorem accepted_checks (h : acceptToMemoryPool E pool tx = .accepted pool') :
    tx.FitFor E ∧ (pool.view E.pcoinsTip).coins (tx.getHash E.H) = none ∧ pool' = pool.addUnchecked E.H tx := by
  unfold acceptToMemoryPool at h
  split at h
  · cases h
  · rename_i hcheck
    split_ifs at h with hcoinbase hstandard hexists hconflict hhave hmissing hinputs
    split at h
    · cases h
    · refine ⟨⟨hcheck, by simpa using hcoinbase, by simpa using hstandard⟩, by simpa using hhave, ?_⟩
      exact (Accepted.accepted.inj h).symm

theorem accept_known (hfit : tx.FitFor E) (hknown : pool.has (tx.getHash E.H) = true) :
    acceptToMemoryPool E pool tx = .rejected 0 := by
  rcases hfit with ⟨hcheck, hcoinbase, hstandard⟩
  simp [acceptToMemoryPool, hcheck, hcoinbase, hstandard, hknown]

theorem accept_missing (hfit : tx.FitFor E) (hfresh : pool.has (tx.getHash E.H) = false)
    (hapart : ∀ txin ∈ tx.vin, pool.mapNextTx.lookup txin.prevout = none)
    (hnone : (pool.view E.pcoinsTip).coins (tx.getHash E.H) = none) {txin : CTxIn} (hin : txin ∈ tx.vin)
    (hmissing : (pool.view E.pcoinsTip).coins txin.prevout.hash = none) :
    acceptToMemoryPool E pool tx = .missingInputs := by
  rcases hfit with ⟨hcheck, hcoinbase, hstandard⟩
  have hconflict : ¬(tx.vin.any (fun txin => (pool.mapNextTx.lookup txin.prevout).isSome) = true) := by
    simp only [List.any_eq_true, not_exists, not_and]
    intro txin hin
    simp [hapart txin hin]
  have hany : tx.vin.any (fun txin => ((pool.view E.pcoinsTip).coins txin.prevout.hash).isNone) = true :=
    List.any_eq_true.2 ⟨txin, hin, by rw [hmissing]; rfl⟩
  simp only [acceptToMemoryPool, hcheck, hcoinbase, hstandard, hfresh, hnone, hany, Option.isSome_none, Bool.false_eq_true,
    Bool.true_eq_false, if_false, if_neg hconflict, if_true]

/-! ## The transactions of the claim -/

/-- A transaction spends an output of another one. -/
def Spends (E : TxEnv) (tx prev : CTransaction) : Prop :=
  ∃ txin ∈ tx.vin, txin.prevout.hash = prev.getHash E.H

instance (E : TxEnv) (tx prev : CTransaction) : Decidable (Spends E tx prev) :=
  inferInstanceAs (Decidable (∃ txin ∈ tx.vin, txin.prevout.hash = prev.getHash E.H))

/-- Each transaction of `held` is there with those of `txs` that it spends. -/
def Closed (E : TxEnv) (txs held : List CTransaction) : Prop :=
  ∀ a ∈ held, ∀ b ∈ txs, Spends E a b → b ∈ held

instance (E : TxEnv) (txs held : List CTransaction) : Decidable (Closed E txs held) :=
  inferInstanceAs (Decidable (∀ a ∈ held, ∀ b ∈ txs, Spends E a b → b ∈ held))

/-- Transactions that a peer may send in some order, each of which is accepted when its parents are in the pool. -/
structure Deliverable (E : TxEnv) (txs : List CTransaction) : Prop where
  distinct : (txs.map (CTransaction.getHash E.H)).Nodup
  few : txs.length ≤ E.nMaxOrphanTx
  small : ∀ tx ∈ txs, tx.serializeSize ≤ 5000
  apart : ∀ a ∈ txs, ∀ b ∈ txs, a ≠ b → ∀ txin ∈ a.vin, ∀ txin' ∈ b.vin, txin.prevout ≠ txin'.prevout
  acyclic : ∃ rank : CTransaction → Nat, ∀ a ∈ txs, ∀ b ∈ txs, Spends E a b → rank b < rank a
  acceptable : ∀ tx ∈ txs, ∀ held ⊆ txs, held.Nodup → Closed E txs held → tx ∉ held →
    (∀ b ∈ txs, Spends E tx b → b ∈ held) →
      ∃ pool, acceptToMemoryPool E (ofList E.H held) tx = .accepted pool

/-- A transaction needs those of the others that it spends. -/
def Needs (E : TxEnv) (txs : List CTransaction) (a b : CTransaction) : Prop :=
  b ∈ txs ∧ Spends E a b

variable {txs held : List CTransaction}

theorem Closed.concat (h : Closed E txs held) (hneeds : ∀ b, Needs E txs tx b → b ∈ held) :
    Closed E txs (held ++ [tx]) := by
  intro a ha b hb hspends
  refine List.mem_append_left _ ?_
  rcases List.mem_append.1 ha with ha | ha
  · exact h a ha b hb hspends
  · rw [List.mem_singleton.1 ha] at hspends
    exact hneeds b ⟨hb, hspends⟩

namespace Deliverable

theorem nodup (h : Deliverable E txs) : txs.Nodup :=
  h.distinct.of_map _

theorem hash_inj (h : Deliverable E txs) {a b : CTransaction} (ha : a ∈ txs) (hb : b ∈ txs)
    (heq : a.getHash E.H = b.getHash E.H) : a = b :=
  List.inj_on_of_nodup_map h.distinct ha hb heq

theorem map_nodup (h : Deliverable E txs) (hsub : held ⊆ txs) (hnodup : held.Nodup) :
    (held.map (CTransaction.getHash E.H)).Nodup :=
  hnodup.map_on fun _ ha _ hb heq => h.hash_inj (hsub ha) (hsub hb) heq

theorem mapTx_iff (h : Deliverable E txs) (hsub : held ⊆ txs) (hnodup : held.Nodup) (htx : tx ∈ txs) :
    (ofList E.H held).has (tx.getHash E.H) = true ↔ tx ∈ held := by
  rw [has, Option.isSome_iff_exists]
  constructor
  · rintro ⟨tx', hmap⟩
    rcases (ofList_mapTx (h.map_nodup hsub hnodup) _ _).1 hmap with ⟨hin, heq⟩
    rwa [← h.hash_inj (hsub hin) htx heq]
  · exact fun hin => ⟨tx, (ofList_mapTx (h.map_nodup hsub hnodup) _ _).2 ⟨hin, rfl⟩⟩

/-- In a pool of all that it could depend on a transaction would be accepted, which says what it is like. -/
theorem fit (h : Deliverable E txs) (htx : tx ∈ txs) :
    tx.FitFor E ∧ E.pcoinsTip.coins (tx.getHash E.H) = none := by
  rcases h.acyclic with ⟨rank, hrank⟩
  let below := txs.filter fun b => rank b < rank tx
  have hbelow : ∀ b, b ∈ below ↔ b ∈ txs ∧ rank b < rank tx := fun b => by simp [below]
  have hsub : below ⊆ txs := fun b hb => ((hbelow b).1 hb).1
  have hnodup : below.Nodup := h.nodup.filter _
  have hnot : tx ∉ below := fun hin => Nat.lt_irrefl _ ((hbelow tx).1 hin).2
  have hclosed : Closed E txs below := by
    intro a ha b hb hspends
    rcases (hbelow a).1 ha with ⟨hin, hlt⟩
    exact (hbelow b).2 ⟨hb, Nat.lt_trans (hrank a hin b hb hspends) hlt⟩
  have hparents : ∀ b ∈ txs, Spends E tx b → b ∈ below := fun b hb hspends =>
    (hbelow b).2 ⟨hb, hrank tx htx b hb hspends⟩
  rcases h.acceptable tx htx below hsub hnodup hclosed hnot hparents with ⟨pool, haccepted⟩
  rcases accepted_checks haccepted with ⟨hfit, hnone, -⟩
  refine ⟨hfit, ?_⟩
  have hmap : (ofList E.H below).has (tx.getHash E.H) = false :=
    (Bool.not_eq_true _).mp (mt (h.mapTx_iff hsub hnodup htx).1 hnot)
  rwa [view_coins hmap] at hnone

theorem accept_of_needs (h : Deliverable E txs) (hsub : held ⊆ txs) (hnodup : held.Nodup) (hclosed : Closed E txs held)
    (htx : tx ∈ txs) (hfresh : tx ∉ held) (hneeds : ∀ b, Needs E txs tx b → b ∈ held) :
    acceptToMemoryPool E (ofList E.H held) tx = .accepted (ofList E.H (held ++ [tx])) := by
  rcases h.acceptable tx htx held hsub hnodup hclosed hfresh fun b hb hspends => hneeds b ⟨hb, hspends⟩
    with ⟨pool, haccepted⟩
  rw [haccepted, (accepted_checks haccepted).2.2, ofList_concat]

theorem accept_of_missing (h : Deliverable E txs) (hsub : held ⊆ txs) (hnodup : held.Nodup) (htx : tx ∈ txs)
    (hfresh : tx ∉ held) {b : CTransaction} (hneeds : Needs E txs tx b) (hb : b ∉ held) :
    acceptToMemoryPool E (ofList E.H held) tx = .missingInputs := by
  rcases hneeds with ⟨hbin, txin, hin, heq⟩
  rcases h.fit htx with ⟨hfit, hchain⟩
  have hmap : (ofList E.H held).has (tx.getHash E.H) = false :=
    (Bool.not_eq_true _).mp (mt (h.mapTx_iff hsub hnodup htx).1 hfresh)
  have hmapb : (ofList E.H held).has (b.getHash E.H) = false :=
    (Bool.not_eq_true _).mp (mt (h.mapTx_iff hsub hnodup hbin).1 hb)
  refine accept_missing hfit hmap (fun txin hin => ?_) (by rw [view_coins hmap, hchain]) hin ?_
  · rw [← Option.not_isSome_iff_eq_none, ofList_mapNextTx]
    rintro ⟨a, ha, txin', hin', heq'⟩
    have hne : tx ≠ a := fun hsame => hfresh (hsame ▸ ha)
    exact h.apart tx htx a (hsub ha) hne txin hin txin' hin' heq'.symm
  · rw [heq, view_coins hmapb]
    exact (h.fit hbin).2

theorem accept_of_held (h : Deliverable E txs) (hsub : held ⊆ txs) (hnodup : held.Nodup) (hin : tx ∈ held) :
    acceptToMemoryPool E (ofList E.H held) tx = .rejected 0 :=
  accept_known (h.fit (hsub hin)).1 ((h.mapTx_iff hsub hnodup (hsub hin)).2 hin)

end Deliverable

end Dobbscoin

/-!
# The `tx` message is a backlog

The pool holds what the backlog of `Lib/Backlog.lean` has taken, and the orphans are what waits there.
-/

namespace Dobbscoin

open Backlog CTxMemPool TxNode

variable {E : TxEnv} {txs front held released : List CTransaction} {node : TxNode} {tx x : CTransaction}

/-! ## Nodes and backlogs -/

/-- A node that has been sent `front`, and the backlog after the same arrivals. -/
structure Shows (E : TxEnv) (txs front : List CTransaction) (node : TxNode) (held : List CTransaction)
    (s : State CTransaction) : Prop where
  mempool : node.mempool = ofList E.H held
  nodup : held.Nodup
  closed : Closed E txs held
  taken : ∀ tx, tx ∈ held ↔ tx ∈ s.held
  sent : held ⊆ front
  stored : Stored E node
  waiting : ∀ tx, node.Waits E tx ↔ tx ∈ s.waiting
  waits : ∀ tx ∈ s.waiting, tx ∈ front ∧ tx ∉ held ∧ ∃ b, Needs E txs tx b ∧ b ∉ held

theorem shows_start : Shows E txs [] TxNode.start [] ⟨∅, ∅⟩ where
  mempool := rfl
  nodup := List.nodup_nil
  closed _ h := absurd h List.not_mem_nil
  taken _ := ⟨fun h => absurd h List.not_mem_nil, fun h => h.elim⟩
  sent := List.nil_subset _
  stored := stored_start
  waiting tx := by
    refine ⟨?_, fun h => h.elim⟩
    rintro ⟨_, h, _⟩
    cases h
  waits _ h := h.elim

/-! ## Orphans looked at -/

section LookAt

variable {q : Queues} {hash : UInt256} {orphan : COrphanTx}

theorem lookAt_of_accepted (hlookup : node.mapOrphanTransactions.lookup hash = some orphan)
    (hhonest : orphan.fromPeer ∉ q.setMisbehaving) {pool : CTxMemPool}
    (haccept : acceptToMemoryPool E q.mempool orphan.tx = .accepted pool) :
    lookAt E node q hash = { q with mempool := pool, vWorkQueue := q.vWorkQueue ++ [hash],
                                    vEraseQueue := q.vEraseQueue ++ [hash] } := by
  simp only [lookAt, hlookup, if_neg hhonest, haccept]

theorem lookAt_of_missing (hlookup : node.mapOrphanTransactions.lookup hash = some orphan)
    (hhonest : orphan.fromPeer ∉ q.setMisbehaving)
    (haccept : acceptToMemoryPool E q.mempool orphan.tx = .missingInputs) :
    lookAt E node q hash = { q with vEraseQueue := q.vEraseQueue ++ [hash] } := by
  simp only [lookAt, hlookup, if_neg hhonest, haccept]

theorem lookAt_of_rejected (hlookup : node.mapOrphanTransactions.lookup hash = some orphan)
    (hhonest : orphan.fromPeer ∉ q.setMisbehaving)
    (haccept : acceptToMemoryPool E q.mempool orphan.tx = .rejected 0) :
    lookAt E node q hash = { q with vEraseQueue := q.vEraseQueue ++ [hash] } := by
  simp only [lookAt, hlookup, if_neg hhonest, haccept, gt_iff_lt, Nat.lt_irrefl, if_false]

end LookAt

/-- The queues after `released` has been added to the pool of a node. -/
structure Looking (E : TxEnv) (txs held : List CTransaction) (s : State CTransaction) (x : CTransaction) (q : Queues)
    (released : List CTransaction) : Prop where
  mempool : q.mempool = ofList E.H (held ++ released)
  work : q.vWorkQueue = released.map (CTransaction.getHash E.H)
  honest : q.setMisbehaving = []
  nodup : (held ++ released).Nodup
  closed : Closed E txs (held ++ released)
  sent : held ++ released ⊆ txs
  released : ∀ a ∈ released, Released (Needs E txs) s x a

variable {s : State CTransaction} {q : Queues}

/-- One orphan. -/
theorem Looking.lookAt (hE : Deliverable E txs) (hheld : ∀ tx, tx ∈ held ↔ tx ∈ s.held)
    (h : Looking E txs held s x q released) (hsent : tx ∈ txs) (hwaiting : tx ∈ s.waiting) (hnot : tx ∉ held)
    (hwaits : node.Waits E tx) :
    ∃ added, Looking E txs held s x (lookAt E node q (tx.getHash E.H)) (released ++ added) ∧
      ((∀ b, Needs E txs tx b → b ∈ held ++ released) → tx ∈ released ++ added) ∧
      (lookAt E node q (tx.getHash E.H)).vEraseQueue = q.vEraseQueue ++ [tx.getHash E.H] := by
  rcases hwaits with ⟨orphan, hlookup, rfl⟩
  have hhonest : orphan.fromPeer ∉ q.setMisbehaving := by
    rw [h.honest]
    exact List.not_mem_nil
  have hsame : Looking E txs held s x { q with vEraseQueue := q.vEraseQueue ++ [orphan.tx.getHash E.H] } released :=
    ⟨h.mempool, h.work, h.honest, h.nodup, h.closed, h.sent, h.released⟩
  by_cases hin : orphan.tx ∈ released
  · -- It has been accepted already, and is found in the pool.
    have haccept : acceptToMemoryPool E q.mempool orphan.tx = .rejected 0 := by
      rw [h.mempool]
      exact hE.accept_of_held h.sent h.nodup (List.mem_append_right _ hin)
    rw [lookAt_of_rejected hlookup hhonest haccept]
    refine ⟨[], ?_, fun _ => List.mem_append_left _ hin, rfl⟩
    rw [List.append_nil]
    exact hsame
  · have hfresh : orphan.tx ∉ held ++ released := fun hboth => (List.mem_append.1 hboth).elim hnot hin
    by_cases hneeds : ∀ b, Needs E txs orphan.tx b → b ∈ held ++ released
    · have haccept : acceptToMemoryPool E q.mempool orphan.tx = .accepted (ofList E.H (held ++ released ++ [orphan.tx])) := by
        rw [h.mempool]
        exact hE.accept_of_needs h.sent h.nodup h.closed hsent hfresh hneeds
      rw [lookAt_of_accepted hlookup hhonest haccept]
      refine ⟨[orphan.tx], ⟨?_, ?_, h.honest, ?_, ?_, ?_, ?_⟩, fun _ => ?_, rfl⟩
      · rw [List.append_assoc]
      · rw [List.map_append, List.map_singleton, h.work]
      · rw [← List.append_assoc, ← List.concat_eq_append, List.nodup_concat]
        exact ⟨hfresh, h.nodup⟩
      · rw [← List.append_assoc]
        exact h.closed.concat hneeds
      · rw [← List.append_assoc]
        exact List.append_subset.2 ⟨h.sent, fun a ha => by rwa [List.mem_singleton.1 ha]⟩
      · intro a ha
        rcases List.mem_append.1 ha with ha | ha
        · exact h.released a ha
        · rw [List.mem_singleton.1 ha]
          refine .waiting hwaiting fun b hb hmissing => ?_
          exact h.released b ((List.mem_append.1 (hneeds b hb)).resolve_left (mt (hheld b).1 hmissing))
      · exact List.mem_append_right _ (List.mem_singleton_self _)
    · have hmissing := hneeds
      simp only [not_forall] at hmissing
      rcases hmissing with ⟨b, hb, hmissing⟩
      have haccept : acceptToMemoryPool E q.mempool orphan.tx = .missingInputs := by
        rw [h.mempool]
        exact hE.accept_of_missing h.sent h.nodup hsent hfresh hb hmissing
      rw [lookAt_of_missing hlookup hhonest haccept]
      refine ⟨[], ?_, fun hall => absurd hall hneeds, rfl⟩
      rw [List.append_nil]
      exact hsame

/-- The orphans that spend one transaction. -/
theorem Looking.lookAts (hE : Deliverable E txs) (hshows : Shows E txs front node held s) (hfront : front ⊆ txs)
    (hashes : List UInt256) :
    ∀ {q : Queues} {released : List CTransaction}, Looking E txs held s x q released →
      (∀ hash ∈ hashes, ∃ tx, node.Waits E tx ∧ tx.getHash E.H = hash) →
      ∃ added, Looking E txs held s x (hashes.foldl (TxNode.lookAt E node) q) (released ++ added) ∧
        (∀ tx, node.Waits E tx → tx.getHash E.H ∈ hashes → (∀ b, Needs E txs tx b → b ∈ held ++ released) →
          tx ∈ released ++ added) ∧
        (hashes.foldl (TxNode.lookAt E node) q).vEraseQueue = q.vEraseQueue ++ hashes := by
  induction hashes with
  | nil =>
    intro q released h _
    refine ⟨[], ?_, fun _ _ hin => absurd hin List.not_mem_nil, (List.append_nil _).symm⟩
    rw [List.append_nil]
    exact h
  | cons hash hashes ih =>
    intro q released h hall
    rcases hall hash (List.mem_cons_self ..) with ⟨t, hwaits, rfl⟩
    have hwaiting := (hshows.waiting t).1 hwaits
    rcases hshows.waits t hwaiting with ⟨hsent, hnot, -⟩
    rcases h.lookAt hE hshows.taken (hfront hsent) hwaiting hnot hwaits with ⟨added, h', htaken, herase⟩
    rcases ih h' fun hash hin => hall hash (List.mem_cons_of_mem _ hin) with ⟨added', h'', htaken', herase'⟩
    rw [List.foldl_cons]
    refine ⟨added ++ added', ?_, fun tx htx hin hneeds => ?_, ?_⟩
    · rw [← List.append_assoc]
      exact h''
    · rw [← List.append_assoc]
      rcases List.mem_cons.1 hin with heq | hin
      · have hin := (hshows.waits tx ((hshows.waiting tx).1 htx)).1
        obtain rfl := hE.hash_inj (hfront hin) (hfront hsent) heq
        exact List.mem_append_left _ (htaken hneeds)
      · refine htaken' tx htx hin fun b hb => ?_
        rw [← List.append_assoc]
        exact List.mem_append_left _ (hneeds b hb)
    · rw [herase', herase, List.append_assoc, List.singleton_append]

/-! ## The work queue -/

/-- The loop before its `i`-th round. -/
structure Working (E : TxEnv) (txs held : List CTransaction) (node : TxNode) (s : State CTransaction) (x : CTransaction)
    (i : Nat) (q : Queues) (released : List CTransaction) : Prop where
  looking : Looking E txs held s x q released
  first : x ∈ released
  done : i ≤ released.length
  taken : ∀ tx ∈ s.waiting, (∀ b, Needs E txs tx b → b ∈ held ∨ b ∈ released.take i) → tx ∈ released
  erase : ∀ hash, hash ∈ q.vEraseQueue ↔
    hash = x.getHash E.H ∨ ∃ b ∈ released.take i, hash ∈ node.byPrev (b.getHash E.H)

/-- One round. -/
theorem Working.round (hE : Deliverable E txs) (hshows : Shows E txs front node held s) (hfront : front ⊆ txs) {i : Nat}
    (h : Working E txs held node s x i q released) {b : CTransaction} (hb : released[i]? = some b) :
    ∃ released', Working E txs held node s x (i + 1)
      ((node.byPrev (b.getHash E.H)).foldl (lookAt E node) q) released' := by
  have hlt : i < released.length := (List.getElem?_eq_some_iff.1 hb).1
  have hstored : ∀ hash ∈ node.byPrev (b.getHash E.H), ∃ tx, node.Waits E tx ∧ tx.getHash E.H = hash := by
    intro hash hin
    rcases (hshows.stored.2 _ _).1 hin with ⟨orphan, hlookup, -⟩
    exact ⟨orphan.tx, hshows.stored.waits hlookup⟩
  rcases h.looking.lookAts hE hshows hfront _ hstored with ⟨added, hlooking, htaken, herase⟩
  have htake : (released ++ added).take (i + 1) = released.take i ++ [b] := by
    rw [List.take_append_of_le_length hlt, List.take_add_one, hb]
    rfl
  refine ⟨released ++ added, hlooking, List.mem_append_left _ h.first, ?_, fun tx hwaiting hneeds => ?_, fun hash => ?_⟩
  · rw [List.length_append]
    exact Nat.le_trans hlt (Nat.le_add_right _ _)
  · rw [htake] at hneeds
    by_cases hspends : Needs E txs tx b
    · have hwaits := (hshows.waiting tx).2 hwaiting
      have hin : tx.getHash E.H ∈ node.byPrev (b.getHash E.H) := (hshows.stored.mem_byPrev hwaits _).2 hspends.2
      refine htaken tx hwaits hin fun c hc => ?_
      rcases hneeds c hc with hc | hc
      · exact List.mem_append_left _ hc
      · rcases List.mem_append.1 hc with hc | hc
        · exact List.mem_append_right _ (List.mem_of_mem_take hc)
        · rw [List.mem_singleton.1 hc]
          exact List.mem_append_right _ (List.mem_of_getElem? hb)
    · refine List.mem_append_left _ (h.taken tx hwaiting fun c hc => ?_)
      rcases hneeds c hc with hc' | hc'
      · exact .inl hc'
      · rcases List.mem_append.1 hc' with hc' | hc'
        · exact .inr hc'
        · rw [List.mem_singleton.1 hc'] at hc
          exact absurd hc hspends
  · rw [herase, List.mem_append, h.erase, htake]
    simp only [List.mem_append, List.mem_singleton, or_and_right, exists_or, exists_eq_left, or_assoc]

theorem Looking.length_le (hE : Deliverable E txs) (hshows : Shows E txs front node held s)
    (h : Looking E txs held s x q released) : released.length ≤ node.mapOrphanTransactions.keys.length + 1 := by
  have hsub : released ⊆ txs := fun a ha => h.sent (List.mem_append_right _ ha)
  have hnodup := hE.map_nodup hsub (List.nodup_append.1 h.nodup).2.1
  have hkeys : released.map (CTransaction.getHash E.H) ⊆ x.getHash E.H :: node.mapOrphanTransactions.keys := by
    intro hash hin
    rcases List.mem_map.1 hin with ⟨a, ha, rfl⟩
    rcases (h.released a ha).mem with rfl | hwaiting
    · exact List.mem_cons_self ..
    · rcases (hshows.waiting a).2 hwaiting with ⟨orphan, hlookup, -⟩
      refine List.mem_cons_of_mem _ (AList.mem_keys.1 (AList.lookup_isSome.1 ?_))
      rw [hlookup]
      rfl
  have hle := (hnodup.subperm hkeys).length_le
  rwa [List.length_map, List.length_cons] at hle

/-- The loop ends, with a queue on which nothing more can be accepted. -/
theorem Working.loop (hE : Deliverable E txs) (hshows : Shows E txs front node held s) (hfront : front ⊆ txs)
    (fuel : Nat) :
    ∀ {i : Nat} {q : Queues} {released : List CTransaction}, Working E txs held node s x i q released →
      node.mapOrphanTransactions.keys.length + 1 ≤ fuel + i →
      ∃ q' released', workLoop E node fuel i q = some q' ∧
        Working E txs held node s x released'.length q' released' := by
  induction fuel with
  | zero =>
    intro i q released h hfuel
    have hend : released.length = i := by
      have hle := h.looking.length_le hE hshows
      have hdone := h.done
      omega
    refine ⟨q, released, ?_, by rw [hend]; exact h⟩
    have hnone : q.vWorkQueue[i]? = none := by
      rw [h.looking.work, List.getElem?_eq_none_iff, List.length_map, hend]
    rw [workLoop, hnone]
  | succ fuel ih =>
    intro i q released h hfuel
    cases hb : released[i]? with
    | none =>
      have hend : released.length = i := Nat.le_antisymm (List.getElem?_eq_none_iff.1 hb) h.done
      refine ⟨q, released, ?_, by rw [hend]; exact h⟩
      have hnone : q.vWorkQueue[i]? = none := by rw [h.looking.work, List.getElem?_map, hb]; rfl
      rw [workLoop, hnone]
    | some b =>
      have hsome : q.vWorkQueue[i]? = some (b.getHash E.H) := by rw [h.looking.work, List.getElem?_map, hb]; rfl
      rcases h.round hE hshows hfront hb with ⟨released', h'⟩
      rw [workLoop, hsome]
      exact ih h' (by omega)

/-- After the loop, all that the backlog releases has been accepted. -/
theorem Working.mem_released (hshows : Shows E txs front node held s)
    (h : Working E txs held node s x released.length q released) (a : CTransaction) :
    a ∈ released ↔ Released (Needs E txs) s x a := by
  refine ⟨h.looking.released a, fun hreleased => ?_⟩
  induction hreleased with
  | arrival => exact h.first
  | @waiting a hwaiting _ ih =>
    refine h.taken a hwaiting fun b hb => ?_
    by_cases hin : b ∈ held
    · exact .inl hin
    · rw [List.take_length]
      exact .inr (ih b hb (mt (hshows.taken b).2 hin))

/-- What waits after the erase queue is what waits in the backlog. -/
theorem Working.erased_iff (hE : Deliverable E txs) (hshows : Shows E txs front node held s) (hfront : front ⊆ txs)
    (hx : x ∈ txs) (hfresh : x ∉ front) (h : Working E txs held node s x released.length q released)
    (hwaiting : tx ∈ s.waiting) :
    tx.getHash E.H ∉ q.vEraseQueue ↔
      ¬Released (Needs E txs) s x tx ∧ ∀ b, Needs E txs tx b → ¬Released (Needs E txs) s x b := by
  rcases hshows.waits tx hwaiting with ⟨hsent, -, c, hc, hmissing⟩
  have hne : tx.getHash E.H ≠ x.getHash E.H := fun heq => hfresh (hE.hash_inj (hfront hsent) hx heq ▸ hsent)
  have herase : tx.getHash E.H ∈ q.vEraseQueue ↔ ∃ b, Needs E txs tx b ∧ Released (Needs E txs) s x b := by
    rw [h.erase, List.take_length, or_iff_right hne]
    constructor
    · rintro ⟨b, hin, hprev⟩
      have hb : b ∈ txs := h.looking.sent (List.mem_append_right _ hin)
      have hspends := (hshows.stored.mem_byPrev ((hshows.waiting tx).2 hwaiting) _).1 hprev
      exact ⟨b, ⟨hb, hspends⟩, h.looking.released b hin⟩
    · rintro ⟨b, hb, hreleased⟩
      refine ⟨b, (h.mem_released hshows b).2 hreleased, ?_⟩
      exact (hshows.stored.mem_byPrev ((hshows.waiting tx).2 hwaiting) _).2 hb.2
  constructor
  · intro hnot
    have hnone : ∀ b, Needs E txs tx b → ¬Released (Needs E txs) s x b := fun b hb hreleased =>
      hnot (herase.2 ⟨b, hb, hreleased⟩)
    refine ⟨fun hreleased => ?_, hnone⟩
    -- It could be released only after something that it needs.
    cases hreleased with
    | arrival => exact hfresh hsent
    | waiting _ hall => exact hnone c hc (hall c hc (mt (hshows.taken c).2 hmissing))
  · rintro ⟨-, hnone⟩ hin
    rcases herase.1 hin with ⟨b, hb, hreleased⟩
    exact hnone b hb hreleased

/-! ## One message -/

theorem Shows.keys_length_le (h : Shows E txs front node held s) : node.mapOrphanTransactions.keys.length ≤ front.length := by
  have hsub : node.mapOrphanTransactions.keys ⊆ front.map (CTransaction.getHash E.H) := by
    intro hash hin
    rcases Option.isSome_iff_exists.1 (AList.lookup_isSome.2 (AList.mem_keys.2 hin)) with ⟨orphan, hlookup⟩
    rcases h.stored.waits hlookup with ⟨hwaits, rfl⟩
    exact List.mem_map.2 ⟨orphan.tx, (h.waits _ ((h.waiting _).1 hwaits)).1, rfl⟩
  have hle := (node.mapOrphanTransactions.keys_nodup.subperm hsub).length_le
  rwa [List.length_map] at hle

section Message

variable (hE : Deliverable E txs) (hfront : front ⊆ txs) (hx : x ∈ txs) (hfresh : x ∉ front)
  (h : Shows E txs front node held s) (peer : NodeId) (draws : List UInt256)

include hE hfront hx hfresh h

theorem Shows.processTx_of_needs (hneeds : ∀ b, Needs E txs x b → b ∈ s.held) :
    ∃ node' held', processTx E node x peer draws = some node' ∧
      Shows E txs (front ++ [x]) node' held' (s.arrive (Needs E txs) x) := by
  have hsub : held ⊆ txs := fun a ha => hfront (h.sent ha)
  have hnot : x ∉ held := fun hin => hfresh (h.sent hin)
  have hneeds' : ∀ b, Needs E txs x b → b ∈ held := fun b hb => (h.taken b).2 (hneeds b hb)
  have haccept : acceptToMemoryPool E node.mempool x = .accepted (ofList E.H (held ++ [x])) := by
    rw [h.mempool]
    exact hE.accept_of_needs hsub h.nodup h.closed hx hnot hneeds'
  have hlooking : Looking E txs held s x ⟨ofList E.H (held ++ [x]), [x.getHash E.H], [x.getHash E.H], []⟩ [x] := by
    refine ⟨rfl, rfl, rfl, ?_, h.closed.concat hneeds', ?_, fun a ha => ?_⟩
    · rw [← List.concat_eq_append, List.nodup_concat]
      exact ⟨hnot, h.nodup⟩
    · exact List.append_subset.2 ⟨hsub, fun a ha => by rwa [List.mem_singleton.1 ha]⟩
    · rw [List.mem_singleton.1 ha]
      exact .arrival
  have hworking : Working E txs held node s x 0 ⟨ofList E.H (held ++ [x]), [x.getHash E.H], [x.getHash E.H], []⟩ [x] := by
    refine ⟨hlooking, List.mem_singleton_self x, Nat.zero_le _, fun tx hwaiting hall => ?_, fun hash => ?_⟩
    · rcases h.waits tx hwaiting with ⟨-, -, b, hb, hmissing⟩
      exact absurd (hall b hb) (by simpa using hmissing)
    · simp
  rcases hworking.loop hE h hfront (node.mapOrphanTransactions.keys.length + 1) (Nat.le_refl _)
    with ⟨q, released, hloop, hdone⟩
  have hmem := hdone.mem_released h
  rw [arrive_of_needs hneeds]
  refine ⟨q.vEraseQueue.foldl eraseOrphanTx { node with mempool := q.mempool }, held ++ released, ?_, ?_⟩
  · simp only [processTx, haccept, hloop, Option.map_some]
  · refine ⟨?_, hdone.looking.nodup, hdone.looking.closed, fun tx => ?_, ?_, ?_, fun tx => ?_, fun tx hwaiting => ?_⟩
    · rw [eraseOrphanTxs_mempool]
      exact hdone.looking.mempool
    · rw [List.mem_append, hmem, h.taken]
      rfl
    · intro a ha
      rcases List.mem_append.1 ha with ha | ha
      · exact List.mem_append_left _ (h.sent ha)
      · rcases ((hmem a).1 ha).mem with rfl | hwaiting
        · exact List.mem_append_right _ (List.mem_singleton_self _)
        · exact List.mem_append_left _ (h.waits a hwaiting).1
    · exact Stored.eraseOrphanTxs _ h.stored
    · rw [waits_eraseOrphanTxs]
      have hbefore : TxNode.Waits E { node with mempool := q.mempool } tx ↔ tx ∈ s.waiting := h.waiting tx
      rw [hbefore]
      exact and_congr_right fun hwaiting => hdone.erased_iff hE h hfront hx hfresh hwaiting
    · rcases hwaiting with ⟨hwaiting, hnot, hnone⟩
      rcases h.waits tx hwaiting with ⟨hsent, hfree, b, hb, hmissing⟩
      refine ⟨List.mem_append_left _ hsent, ?_, b, hb, ?_⟩
      · rw [List.mem_append, hmem]
        exact not_or.2 ⟨hfree, hnot⟩
      · rw [List.mem_append, hmem]
        exact not_or.2 ⟨hmissing, hnone b hb⟩

theorem Shows.processTx_of_missing (hle : (front ++ [x]).length ≤ txs.length) {b : CTransaction}
    (hb : Needs E txs x b) (hmissing : b ∉ s.held) :
    ∃ node' held', processTx E node x peer draws = some node' ∧
      Shows E txs (front ++ [x]) node' held' (s.arrive (Needs E txs) x) := by
  have hsub : held ⊆ txs := fun a ha => hfront (h.sent ha)
  have hnot : x ∉ held := fun hin => hfresh (h.sent hin)
  have hmissing' : b ∉ held := mt (h.taken b).1 hmissing
  have haccept : acceptToMemoryPool E node.mempool x = .missingInputs := by
    rw [h.mempool]
    exact hE.accept_of_missing hsub h.nodup hx hnot hb hmissing'
  have hnew : node.mapOrphanTransactions.lookup (x.getHash E.H) = none := by
    refine Option.eq_none_iff_forall_ne_some.2 fun orphan hlookup => ?_
    rcases h.stored.waits hlookup with ⟨hwaits, heq⟩
    have hsent := (h.waits _ ((h.waiting _).1 hwaits)).1
    exact hfresh (hE.hash_inj (hfront hsent) hx heq ▸ hsent)
  have hsmall := hE.small x hx
  -- The pool is as it was.
  have hmempool : (node.addOrphanTx E x peer).mempool = node.mempool := by rw [addOrphanTx_eq hnew hsmall]
  rw [arrive_of_missing hb hmissing]
  have hshows : Shows E txs (front ++ [x]) (node.addOrphanTx E x peer) held { s with waiting := insert x s.waiting } := by
    refine ⟨hmempool.trans h.mempool, h.nodup, h.closed, h.taken, fun a ha => List.mem_append_left _ (h.sent ha),
      h.stored.addOrphanTx hnew hsmall peer, fun tx => ?_, fun tx hwaiting => ?_⟩
    · rw [waits_addOrphanTx hnew hsmall peer, h.waiting]
      rfl
    · rcases hwaiting with rfl | hwaiting
      · exact ⟨List.mem_append_right _ (List.mem_singleton_self _), hnot, b, hb, hmissing'⟩
      · rcases h.waits tx hwaiting with ⟨hsent, hrest⟩
        exact ⟨List.mem_append_left _ hsent, hrest⟩
  refine ⟨_, held, ?_, hshows⟩
  have hfew : (node.addOrphanTx E x peer).mapOrphanTransactions.keys.length ≤ E.nMaxOrphanTx :=
    hshows.keys_length_le.trans (hle.trans hE.few)
  simp only [processTx, haccept, limitOrphanTxSize_of_le hfew]

end Message

theorem Shows.processTx (hE : Deliverable E txs) {back : List CTransaction} (htxs : txs = front ++ x :: back)
    (h : Shows E txs front node held s) (peer : NodeId) (draws : List UInt256) :
    ∃ node' held', node.processTx E x peer draws = some node' ∧
      Shows E txs (front ++ [x]) node' held' (s.arrive (Needs E txs) x) := by
  have hfront : front ⊆ txs := by
    rw [htxs]
    exact List.subset_append_left _ _
  have hx : x ∈ txs := by
    rw [htxs]
    exact List.mem_append_right _ (List.mem_cons_self ..)
  have hfresh : x ∉ front := by
    have hnodup := hE.nodup
    rw [htxs] at hnodup
    exact fun hin => (List.nodup_append.1 hnodup).2.2 x hin x (List.mem_cons_self ..) rfl
  by_cases hneeds : ∀ b, Needs E txs x b → b ∈ s.held
  · exact h.processTx_of_needs hE hfront hx hfresh peer draws hneeds
  · simp only [not_forall] at hneeds
    rcases hneeds with ⟨b, hb, hmissing⟩
    refine h.processTx_of_missing hE hfront hx hfresh peer draws ?_ hb hmissing
    rw [htxs, List.length_append, List.length_append, List.length_cons]
    exact Nat.add_le_add_left (Nat.le_add_left _ _) _

/-- The handler, run on messages, is the backlog run on their transactions. -/
theorem Shows.deliver (hE : Deliverable E txs) (msgs : List TxMessage) :
    ∀ {front : List CTransaction} {node : TxNode} {held : List CTransaction} {s : State CTransaction},
      txs = front ++ msgs.map TxMessage.tx → Shows E txs front node held s →
      ∃ node' held', msgs.foldlM (fun node msg => node.processTx E msg.tx msg.peer msg.draws) node = some node' ∧
        Shows E txs txs node' held' ((msgs.map TxMessage.tx).foldl (State.arrive (Needs E txs)) s) := by
  induction msgs with
  | nil =>
    intro front node held s htxs h
    rw [List.map_nil, List.append_nil] at htxs
    subst htxs
    exact ⟨node, held, rfl, h⟩
  | cons msg msgs ih =>
    intro front node held s htxs h
    rw [List.map_cons] at htxs
    rcases h.processTx hE htxs msg.peer msg.draws with ⟨node', held', hprocess, h'⟩
    rw [List.foldlM_cons, hprocess, List.map_cons, List.foldl_cons]
    refine ih ?_ h'
    rw [htxs, List.append_assoc, List.singleton_append]

/-! ## The pool at the end -/

theorem Shows.mapTx_iff (hE : Deliverable E txs) (h : Shows E txs txs node held s) (hash : UInt256) (tx : CTransaction) :
    node.mempool.mapTx.lookup hash = some tx ↔ tx ∈ s.held ∧ tx.getHash E.H = hash := by
  rw [h.mempool, ofList_mapTx (hE.map_nodup h.sent h.nodup), h.taken]

/-- The pool holds exactly some transactions. -/
def TxNode.Holds (E : TxEnv) (node : TxNode) (txs : List CTransaction) : Prop :=
  ∀ hash tx, node.mempool.mapTx.lookup hash = some tx ↔ tx ∈ txs ∧ tx.getHash E.H = hash

theorem Shows.holds_iff (hE : Deliverable E txs) (h : Shows E txs txs node held s) :
    node.Holds E txs ↔ ∀ a, a ∈ s.held ↔ a ∈ txs := by
  constructor
  · intro hholds a
    have ha := (h.mapTx_iff hE (a.getHash E.H) a).symm.trans (hholds (a.getHash E.H) a)
    simpa using ha
  · intro hall hash tx
    rw [h.mapTx_iff hE, hall]

/-- Whatever the order of arrival, the handler ends; and all transactions are in the pool at the end exactly when no
arrival completes a parent of a transaction that came before it without completing that transaction as well. -/
theorem deliver_holds_iff (msgs : List TxMessage) (hE : Deliverable E (msgs.map TxMessage.tx)) :
    ∃ node, TxNode.deliver E msgs = some node ∧
      (node.Holds E (msgs.map TxMessage.tx) ↔ ∀ front x back, msgs.map TxMessage.tx = front ++ x :: back →
        Unsplit (Needs E (msgs.map TxMessage.tx)) front x) := by
  rcases Shows.deliver hE msgs rfl shows_start with ⟨node, held, hdeliver, h⟩
  rcases hE.acyclic with ⟨rank, hrank⟩
  refine ⟨node, hdeliver, (h.holds_iff hE).trans ?_⟩
  exact held_run_iff hE.nodup (fun a _ b hb => hb.1) rank fun a ha b hb => hrank a ha b hb.1 hb.2

/-! ## A child of two parents -/

/-- The hash is the first byte. -/
def firstByteCrypto : Crypto where
  hash m := BitVec.ofNat 256 (m.headD 0).toNat
  hashScrypt _ := 0

/-- A chain with the coins `7` and `8`. -/
def orphanEnv : TxEnv where
  H := firstByteCrypto
  pcoinsTip := (CoinsView.empty.set 7 ⟨false, [⟨50, [0x51]⟩], 1, 1⟩).set 8 ⟨false, [⟨50, [0x51]⟩], 1, 1⟩
  isStandardTx _ := true
  checkPolicy _ _ := .ok ()
  nMaxOrphanTx := 100

def orphanTx (nVersion : Int32) (prevs : List UInt256) : CTransaction where
  nVersion := nVersion
  vin := prevs.map fun prev => ⟨⟨prev, 0⟩, [], 0⟩
  vout := [⟨40, [0x51]⟩]
  nLockTime := 0

def firstParent : CTransaction :=
  orphanTx 1 [7]

def secondParent : CTransaction :=
  orphanTx 2 [8]

def childOfBoth : CTransaction :=
  orphanTx 3 [1, 2]

def childFirst : List TxMessage :=
  [⟨childOfBoth, 1, []⟩, ⟨firstParent, 1, []⟩, ⟨secondParent, 1, []⟩]

def childLast : List TxMessage :=
  [⟨firstParent, 1, []⟩, ⟨secondParent, 1, []⟩, ⟨childOfBoth, 1, []⟩]

def Accepted.isAccepted : Accepted → Bool
  | .accepted _ => true
  | _ => false

theorem Accepted.isAccepted_iff {a : Accepted} : a.isAccepted = true ↔ ∃ pool, a = .accepted pool := by
  cases a <;> simp [Accepted.isAccepted]

theorem mem_arrangements {α : Type} {l held : List α} (hsub : held ⊆ l) (hnodup : held.Nodup) :
    held ∈ l.sublists'.flatMap List.permutations' := by
  rcases hnodup.subperm hsub with ⟨part, hperm, hpart⟩
  exact List.mem_flatMap.2 ⟨part, List.mem_sublists'.2 hpart, List.mem_permutations'.2 hperm.symm⟩

theorem childFirst_acceptable :
    ∀ held ∈ (childFirst.map TxMessage.tx).sublists'.flatMap List.permutations', ∀ tx ∈ childFirst.map TxMessage.tx,
      Closed orphanEnv (childFirst.map TxMessage.tx) held → tx ∉ held →
      (∀ b ∈ childFirst.map TxMessage.tx, Spends orphanEnv tx b → b ∈ held) →
      (acceptToMemoryPool orphanEnv (ofList orphanEnv.H held) tx).isAccepted = true := by
  decide

theorem childFirst_deliverable : Deliverable orphanEnv (childFirst.map TxMessage.tx) where
  distinct := by decide
  few := by decide
  small := by decide
  apart := by decide
  acyclic := ⟨fun tx => tx.vin.length, by decide⟩
  acceptable tx htx held hsub hnodup hclosed hnot hparents :=
    Accepted.isAccepted_iff.1 (childFirst_acceptable held (mem_arrangements hsub hnodup) tx htx hclosed hnot hparents)

theorem deliver_holds_iff_childFirst :
    ∃ node, TxNode.deliver orphanEnv childFirst = some node ∧
      (node.Holds orphanEnv (childFirst.map TxMessage.tx) ↔ ∀ front x back,
        childFirst.map TxMessage.tx = front ++ x :: back →
          Unsplit (Needs orphanEnv (childFirst.map TxMessage.tx)) front x) :=
  deliver_holds_iff childFirst childFirst_deliverable

/-- The child is looked at when its first parent arrives, and is not kept until the second one does. -/
theorem childFirst_loses_child :
    Deliverable orphanEnv (childFirst.map TxMessage.tx) ∧ childLast.Perm childFirst ∧
      (∃ node, TxNode.deliver orphanEnv childFirst = some node ∧
        ¬node.Holds orphanEnv (childFirst.map TxMessage.tx)) ∧
      ∃ node, TxNode.deliver orphanEnv childLast = some node ∧ (node.mempool.mapTx.lookup 3).isSome := by
  refine ⟨childFirst_deliverable, ?_, ?_, ?_⟩
  · exact ((List.Perm.swap ..).cons _).trans (.swap ..)
  · have hrun : (TxNode.deliver orphanEnv childFirst).map (fun node => (node.mempool.mapTx.lookup 3).isNone) = some true := by
      decide
    rcases Option.map_eq_some_iff.1 hrun with ⟨node, hdeliver, hnone⟩
    refine ⟨node, hdeliver, fun hholds => ?_⟩
    have hchild := (hholds 3 childOfBoth).2 (by decide)
    rw [hchild] at hnone
    cases hnone
  · have hrun : (TxNode.deliver orphanEnv childLast).map (fun node => (node.mempool.mapTx.lookup 3).isSome) = some true := by
      decide
    rcases Option.map_eq_some_iff.1 hrun with ⟨node, hdeliver, hsome⟩
    exact ⟨node, hdeliver, hsome⟩

end Dobbscoin
