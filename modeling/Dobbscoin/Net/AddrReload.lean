import Dobbscoin.Net.AddrSerialize

/-!
# Saving and loading the address manager

What `Unserialize` makes of the file that `Serialize` wrote: the same tables, with the ids in the order of the file.
-/

namespace Dobbscoin

open ByteCodec

/-! ## Entries -/

/-- The numbers of an entry fit their types. -/
structure CAddrInfo.Typed (info : CAddrInfo) : Prop where
  nTime : info.addr.nTime < 2 ^ 32
  nServices : info.addr.nServices < 2 ^ 64
  ip : info.addr.service.ip.length = 16
  port : info.addr.service.port < 2 ^ 16
  source : info.source.length = 16
  nLastSuccess : -2 ^ 63 ≤ info.nLastSuccess ∧ info.nLastSuccess < 2 ^ 63
  nAttempts : -2 ^ 31 ≤ info.nAttempts ∧ info.nAttempts < 2 ^ 31

theorem twos_fits_int {n : Int} (hlow : -2 ^ 31 ≤ n) (hhigh : n < 2 ^ 31) : (twos 4).Fits n := by
  show -256 ^ 4 ≤ 2 * n ∧ 2 * n < 256 ^ 4
  omega

/-- An entry is read back into another one, which keeps what is memory only. -/
theorem CAddrInfo.get_put {info : CAddrInfo} (h : info.Typed) (old : CAddrInfo) (rest : Bytes) :
    old.get (info.put ++ rest) = some ({ old with
      addr := { info.addr with nLastTry := 0 }
      source := info.source
      nLastSuccess := info.nLastSuccess
      nAttempts := info.nAttempts }, rest) := by
  have hfits : addrInfoCodec.Fits (clientVersion, info.addr.nTime, info.addr.nServices, info.addr.service.ip,
      info.addr.service.port, info.source, info.nLastSuccess, info.nAttempts) := by
    refine ⟨twos_fits_int (n := clientVersion) (by decide) (by decide), h.nTime, h.nServices, h.ip, h.port, h.source, ?_,
      twos_fits_int h.nAttempts.1 h.nAttempts.2⟩
    show -256 ^ 8 ≤ 2 * info.nLastSuccess ∧ 2 * info.nLastSuccess < 256 ^ 8
    have hbounds := h.nLastSuccess
    omega
  rw [CAddrInfo.get, CAddrInfo.put, addrInfoCodec.get_put hfits, Option.map_some]

namespace CAddrMan

/-- The numbers of a state fit their types. -/
structure Typed (s : CAddrMan) : Prop where
  nNew : s.nNew < 2 ^ 31
  nTried : s.nTried < 2 ^ 31
  entries : ∀ nId info, s.mapInfo nId = some info → info.Typed

variable {env : AddrEnv} {s : CAddrMan} {nId : Nat} {info : CAddrInfo}

/-! ## The order of the file -/

/-- The entry of an id has a property. -/
def idHas (s : CAddrMan) (p : CAddrInfo → Bool) (nId : Nat) : Bool :=
  (s.mapInfo nId).any p

def newOrder (s : CAddrMan) : List Nat :=
  (List.range s.nIdCount).filter (s.idHas fun info => decide (info.nRefCount ≠ 0))

def triedOrder (s : CAddrMan) : List Nat :=
  (List.range s.nIdCount).filter (s.idHas CAddrInfo.fInTried)

/-- The ids of the entries as the file has them. -/
def order (s : CAddrMan) : List Nat :=
  s.newOrder ++ s.triedOrder

/-- The id that an entry gets when the file is loaded. -/
def fileId (s : CAddrMan) (nId : Nat) : Nat :=
  s.order.idxOf nId

theorem idHas_iff {p : CAddrInfo → Bool} : s.idHas p nId = true ↔ ∃ info, s.mapInfo nId = some info ∧ p info = true := by
  cases hinfo : s.mapInfo nId with
  | none => simp [idHas, hinfo]
  | some info => simp [idHas, hinfo]

theorem Consistent.refCount_ne_zero (h : Consistent env s) (hinfo : s.mapInfo nId = some info) :
    info.nRefCount ≠ 0 ↔ info.fInTried = false := by
  constructor
  · intro hne
    cases hin : info.fInTried with
    | false => rfl
    | true => exact absurd (h.tried nId info hinfo hin).2.1 hne
  · intro hin
    have hpos := (h.new nId info hinfo hin).1
    omega

theorem Consistent.mem_newOrder (h : Consistent env s) :
    nId ∈ s.newOrder ↔ ∃ info, s.mapInfo nId = some info ∧ info.fInTried = false := by
  rw [newOrder, List.mem_filter, List.mem_range, idHas_iff]
  constructor
  · rintro ⟨-, info, hinfo, hne⟩
    exact ⟨info, hinfo, (h.refCount_ne_zero hinfo).1 (of_decide_eq_true hne)⟩
  · rintro ⟨info, hinfo, hin⟩
    exact ⟨h.bounded nId info hinfo, info, hinfo, decide_eq_true ((h.refCount_ne_zero hinfo).2 hin)⟩

theorem Consistent.mem_triedOrder (h : Consistent env s) :
    nId ∈ s.triedOrder ↔ ∃ info, s.mapInfo nId = some info ∧ info.fInTried = true := by
  rw [triedOrder, List.mem_filter, List.mem_range, idHas_iff]
  exact ⟨fun hin => hin.2, fun ⟨info, hinfo, hin⟩ => ⟨h.bounded nId info hinfo, info, hinfo, hin⟩⟩

theorem Consistent.mem_order (h : Consistent env s) : nId ∈ s.order ↔ ∃ info, s.mapInfo nId = some info := by
  rw [order, List.mem_append, h.mem_newOrder, h.mem_triedOrder]
  constructor
  · rintro (⟨info, hinfo, -⟩ | ⟨info, hinfo, -⟩)
    · exact ⟨info, hinfo⟩
    · exact ⟨info, hinfo⟩
  · rintro ⟨info, hinfo⟩
    cases hin : info.fInTried with
    | false => exact .inl ⟨info, hinfo, hin⟩
    | true => exact .inr ⟨info, hinfo, hin⟩

theorem newOrder_nodup (s : CAddrMan) : s.newOrder.Nodup :=
  List.nodup_range.filter _

theorem triedOrder_nodup (s : CAddrMan) : s.triedOrder.Nodup :=
  List.nodup_range.filter _

theorem Consistent.order_nodup (h : Consistent env s) : s.order.Nodup := by
  refine List.nodup_append.2 ⟨s.newOrder_nodup, s.triedOrder_nodup, ?_⟩
  rintro nId hnew nId' htried rfl
  rcases h.mem_newOrder.1 hnew with ⟨info, hinfo, hin⟩
  rcases h.mem_triedOrder.1 htried with ⟨info', hinfo', hin'⟩
  rw [hinfo] at hinfo'
  rw [← Option.some.inj hinfo', hin] at hin'
  cases hin'

theorem Consistent.length_newOrder (h : Consistent env s) : (s.newOrder.length : Int) = s.nNew := by
  have hids : s.newOrder.toFinset = s.idsOf false := by
    ext nId
    rw [List.mem_toFinset, h.mem_newOrder, h.mem_idsOf]
  rw [h.nNew, h.card_idsOf, ← hids, List.toFinset_card_of_nodup s.newOrder_nodup]

theorem Consistent.length_triedOrder (h : Consistent env s) : (s.triedOrder.length : Int) = s.nTried := by
  have hids : s.triedOrder.toFinset = s.idsOf true := by
    ext nId
    rw [List.mem_toFinset, h.mem_triedOrder, h.mem_idsOf]
  rw [h.nTried, h.card_idsOf, ← hids, List.toFinset_card_of_nodup s.triedOrder_nodup]

theorem length_order (s : CAddrMan) : s.order.length = s.newOrder.length + s.triedOrder.length :=
  List.length_append

/-- An entry is at its id in the order of the file. -/
theorem Consistent.order_fileId (h : Consistent env s) (hinfo : s.mapInfo nId = some info) :
    s.order[s.fileId nId]? = some nId :=
  List.getElem?_idxOf (h.mem_order.2 ⟨info, hinfo⟩)

theorem Consistent.fileId_eq_iff (h : Consistent env s) (hinfo : s.mapInfo nId = some info) {k : Nat} :
    s.fileId nId = k ↔ s.order[k]? = some nId := by
  constructor
  · rintro rfl
    exact h.order_fileId hinfo
  · intro hk
    rcases List.getElem?_eq_some_iff.1 hk with ⟨hlt, heq⟩
    rw [fileId, ← heq]
    exact h.order_nodup.idxOf_getElem k hlt

theorem Consistent.fileId_inj (h : Consistent env s) {nId' : Nat} {info' : CAddrInfo} (hinfo : s.mapInfo nId = some info)
    (hinfo' : s.mapInfo nId' = some info') (heq : s.fileId nId = s.fileId nId') : nId = nId' := by
  have hat := h.order_fileId hinfo
  rw [heq, h.order_fileId hinfo'] at hat
  exact (Option.some.inj hat).symm

theorem Consistent.fileId_lt (h : Consistent env s) (hinfo : s.mapInfo nId = some info) :
    s.fileId nId < s.order.length :=
  List.idxOf_lt_length_of_mem (h.mem_order.2 ⟨info, hinfo⟩)

theorem Consistent.fileId_new_lt (h : Consistent env s) (hinfo : s.mapInfo nId = some info) (hin : info.fInTried = false) :
    s.fileId nId = s.newOrder.idxOf nId ∧ s.fileId nId < s.newOrder.length := by
  have hmem := h.mem_newOrder.2 ⟨info, hinfo, hin⟩
  have heq : s.fileId nId = s.newOrder.idxOf nId := List.idxOf_append_of_mem hmem
  exact ⟨heq, heq ▸ List.idxOf_lt_length_of_mem hmem⟩

theorem Consistent.le_fileId_tried (h : Consistent env s) (hinfo : s.mapInfo nId = some info) (hin : info.fInTried = true) :
    s.newOrder.length ≤ s.fileId nId := by
  have hnot : nId ∉ s.newOrder := by
    rw [h.mem_newOrder]
    rintro ⟨info', hinfo', hin'⟩
    rw [hinfo] at hinfo'
    rw [← Option.some.inj hinfo', hin] at hin'
    cases hin'
  rw [fileId, order, List.idxOf_append_of_notMem hnot]
  exact Nat.le_add_right _ _

/-! ## What is written -/

/-- The bytes of the entry of an id. -/
def putId (s : CAddrMan) (nId : Nat) : Bytes :=
  ((s.mapInfo nId).map CAddrInfo.put).getD []

/-- The assertion on `nNew` holds when as many entries as it says have references, and they get consecutive ids. -/
theorem writeNew_eq (rest : List Nat) : ∀ {m : Nat → Nat} {n : Nat}, rest.Nodup →
    ((n + (rest.filter (s.idHas fun info => decide (info.nRefCount ≠ 0))).length : Nat) : Int) = s.nNew →
    ∃ m', s.writeNew rest m n =
        some (m', (rest.filter (s.idHas fun info => decide (info.nRefCount ≠ 0))).flatMap s.putId) ∧
      (∀ nId ∉ rest, m' nId = m nId) ∧
      ∀ nId ∈ rest.filter (s.idHas fun info => decide (info.nRefCount ≠ 0)),
        m' nId = n + (rest.filter (s.idHas fun info => decide (info.nRefCount ≠ 0))).idxOf nId := by
  induction rest with
  | nil => exact fun _ _ => ⟨_, rfl, fun _ _ => rfl, fun _ hin => absurd hin List.not_mem_nil⟩
  | cons nId rest ih =>
    intro m n hnodup hcount
    rcases List.nodup_cons.1 hnodup with ⟨hfresh, hnodup⟩
    unfold writeNew
    cases hinfo : s.mapInfo nId with
    | none =>
      have hnot : ¬(s.idHas (fun info => decide (info.nRefCount ≠ 0)) nId = true) := by simp [idHas, hinfo]
      rw [List.filter_cons_of_neg hnot] at hcount ⊢
      rcases ih hnodup hcount with ⟨m', hwrite, hother, hids⟩
      exact ⟨m', hwrite, fun nId' hnot' => hother nId' fun hin => hnot' (List.mem_cons_of_mem _ hin), hids⟩
    | some info =>
      by_cases hrefs : info.nRefCount ≠ 0
      · have hhas : s.idHas (fun info => decide (info.nRefCount ≠ 0)) nId = true := by simp [idHas, hinfo, hrefs]
        rw [List.filter_cons_of_pos hhas] at hcount ⊢
        rw [List.length_cons] at hcount
        have hassert : ¬((n : Int) = s.nNew) := by omega
        rcases ih (m := Function.update m nId n) (n := n + 1) hnodup (by rw [← hcount]; congr 1; omega)
          with ⟨m', hwrite, hother, hids⟩
        refine ⟨m', ?_, fun nId' hnot' => ?_, fun nId' hin => ?_⟩
        · simp only [if_pos hrefs, if_neg hassert, hwrite, Option.map_some, List.flatMap_cons, putId, hinfo,
            Option.getD_some]
        · rw [List.mem_cons, not_or] at hnot'
          rw [hother nId' hnot'.2, Function.update_of_ne hnot'.1]
        · rcases List.mem_cons.1 hin with rfl | hin
          · rw [hother _ hfresh, Function.update_self, List.idxOf_cons_self, Nat.add_zero]
          · have hne : nId ≠ nId' := by
              rintro rfl
              exact hfresh (List.mem_filter.1 hin).1
            rw [hids nId' hin, List.idxOf_cons_ne _ hne]
            omega
      · have hnot : ¬(s.idHas (fun info => decide (info.nRefCount ≠ 0)) nId = true) := by simp [idHas, hinfo, not_not.1 hrefs]
        rw [List.filter_cons_of_neg hnot] at hcount ⊢
        rcases ih (m := Function.update m nId n) hnodup hcount with ⟨m', hwrite, hother, hids⟩
        refine ⟨m', ?_, fun nId' hnot' => ?_, hids⟩
        · simp only [if_neg hrefs, hwrite]
        · rw [List.mem_cons, not_or] at hnot'
          rw [hother nId' hnot'.2, Function.update_of_ne hnot'.1]

theorem writeTried_eq (rest : List Nat) : ∀ {n : Nat},
    ((n + (rest.filter (s.idHas CAddrInfo.fInTried)).length : Nat) : Int) = s.nTried →
    s.writeTried rest n = some ((rest.filter (s.idHas CAddrInfo.fInTried)).flatMap s.putId) := by
  induction rest with
  | nil => exact fun _ => rfl
  | cons nId rest ih =>
    intro n hcount
    unfold writeTried
    cases hinfo : s.mapInfo nId with
    | none =>
      have hnot : ¬(s.idHas CAddrInfo.fInTried nId = true) := by simp [idHas, hinfo]
      rw [List.filter_cons_of_neg hnot] at hcount ⊢
      exact ih hcount
    | some info =>
      by_cases hin : info.fInTried = true
      · have hhas : s.idHas CAddrInfo.fInTried nId = true := by simp [idHas, hinfo, hin]
        rw [List.filter_cons_of_pos hhas] at hcount ⊢
        rw [List.length_cons] at hcount
        have hassert : ¬((n : Int) = s.nTried) := by omega
        have hrun := ih (n := n + 1) (by rw [← hcount]; congr 1; omega)
        simp only [if_pos hin, if_neg hassert, hrun, Option.map_some, List.flatMap_cons, putId, hinfo, Option.getD_some]
      · have hnot : ¬(s.idHas CAddrInfo.fInTried nId = true) := by simp [idHas, hinfo, hin]
        rw [List.filter_cons_of_neg hnot] at hcount ⊢
        simp only [if_neg hin, ih hcount]

/-- The bytes of a new bucket, with the ids that the entries have in the file. -/
theorem Consistent.writeBucket_congr (h : Consistent env s) {m : Nat → Nat}
    (hids : ∀ nId ∈ s.newOrder, m nId = s.newOrder.idxOf nId) (bucket : Nat) :
    s.writeBucket m bucket = s.writeBucket s.fileId bucket := by
  have hsame : ((List.range addrmanBucketSize).filterMap (s.vvNew bucket)).map (fun nId => (m nId : Int)) =
      ((List.range addrmanBucketSize).filterMap (s.vvNew bucket)).map fun nId => (s.fileId nId : Int) := by
    refine List.map_congr_left fun nId hheld => ?_
    rcases List.mem_filterMap.1 hheld with ⟨i, -, hslot⟩
    rcases h.newSlot bucket i nId hslot with ⟨info, hinfo, hin, -, -⟩
    rw [hids nId (h.mem_newOrder.2 ⟨info, hinfo, hin⟩), (h.fileId_new_lt hinfo hin).1]
  simp only [writeBucket, hsame]

/-- The assertions of `Serialize` hold, and this is the file. -/
theorem Consistent.serialize (h : Consistent env s) :
    s.serialize = some (byte.put 1 ++ (byte.put 32 ++ (uint256Codec.put s.nKey ++ ((twos 4).put s.nNew ++
      ((twos 4).put s.nTried ++ ((twos 4).put (addrmanNewBucketCount ^^^ 2 ^ 30 : Nat) ++
        (s.newOrder.flatMap s.putId ++ (s.triedOrder.flatMap s.putId ++
          (List.range addrmanNewBucketCount).flatMap (s.writeBucket s.fileId))))))))) := by
  rcases writeNew_eq (s := s) (List.range s.nIdCount) (m := fun _ => 0) (n := 0) List.nodup_range
    (by rw [Nat.zero_add]; exact h.length_newOrder) with ⟨m, hnew, -, hids⟩
  have htried := writeTried_eq (s := s) (List.range s.nIdCount) (n := 0)
    (by rw [Nat.zero_add]; exact h.length_triedOrder)
  have hids' : ∀ nId ∈ s.newOrder, m nId = s.newOrder.idxOf nId := fun nId hin => by
    rw [hids nId hin, Nat.zero_add]
    rfl
  have hbuckets : (List.range addrmanNewBucketCount).flatMap (s.writeBucket m) =
      (List.range addrmanNewBucketCount).flatMap (s.writeBucket s.fileId) :=
    List.flatMap_congr fun bucket _ => h.writeBucket_congr hids' bucket
  rw [CAddrMan.serialize, hnew]
  simp only [Option.bind_eq_bind, Option.bind_some, htried, hbuckets]
  rfl

/-! ## What is read -/

/-- An entry at a position of the file, with some of its references. -/
def fileEntry (info : CAddrInfo) (n : Nat) (nRefs : Nat) : CAddrInfo :=
  { info with addr := { info.addr with nLastTry := 0 }, nRefCount := nRefs, nRandomPos := n }

/-- The references of an entry among some places. -/
def refsIn (s : CAddrMan) (nId : Nat) (done : List (Nat × Nat)) : Nat :=
  done.countP fun slot => decide (s.vvNew slot.1 slot.2 = some nId)

/-- The state when `k` entries of the file have been read, and the places `done`. -/
def loading (s : CAddrMan) (nIdCount k : Nat) (done : List (Nat × Nat)) : CAddrMan where
  nKey := s.nKey
  nIdCount
  mapInfo n := if n < k then
      s.order[n]?.bind fun nId => (s.mapInfo nId).map fun info => fileEntry info n (s.refsIn nId done)
    else none
  mapAddr ip := (s.mapAddr ip).bind fun nId => if s.fileId nId < k then some (s.fileId nId) else none
  vRandom := List.range k
  nTried := s.nTried
  vvTried b i := (s.vvTried b i).bind fun nId => if s.fileId nId < k then some (s.fileId nId) else none
  nNew := s.nNew
  vvNew b i := if (b, i) ∈ done then (s.vvNew b i).map s.fileId else none

theorem loading_zero (s : CAddrMan) :
    s.loading 0 0 [] = { start s.nKey with nNew := s.nNew, nTried := s.nTried } := by
  have hinfo : (s.loading 0 0 []).mapInfo = fun _ => none := by
    funext n
    simp [loading]
  have haddr : (s.loading 0 0 []).mapAddr = fun _ => none := by
    funext ip
    cases s.mapAddr ip <;> simp [loading]
  have htried : (s.loading 0 0 []).vvTried = fun _ _ => none := by
    funext b i
    cases s.vvTried b i <;> simp [loading]
  have hnew : (s.loading 0 0 []).vvNew = fun _ _ => none := by
    funext b i
    simp [loading]
  calc
    s.loading 0 0 [] = { s.loading 0 0 [] with
        mapInfo := (s.loading 0 0 []).mapInfo
        mapAddr := (s.loading 0 0 []).mapAddr
        vvTried := (s.loading 0 0 []).vvTried
        vvNew := (s.loading 0 0 []).vvNew } := rfl
    _ = { start s.nKey with nNew := s.nNew, nTried := s.nTried } := by
      rw [hinfo, haddr, htried, hnew]
      rfl

theorem loading_mapInfo (hinfo : s.mapInfo nId = some info) {nIdCount k n : Nat} {done : List (Nat × Nat)}
    (hat : s.order[n]? = some nId) (hlt : n < k) :
    (s.loading nIdCount k done).mapInfo n = some (fileEntry info n (s.refsIn nId done)) := by
  simp only [loading, if_pos hlt, hat, Option.bind_some, hinfo, Option.map_some]

/-- The next entry of the file. -/
theorem loading_mapInfo_succ (hinfo : s.mapInfo nId = some info) {nIdCount nIdCount' k : Nat}
    (hat : s.order[k]? = some nId) :
    Function.update (s.loading nIdCount k []).mapInfo k (some (fileEntry info k 0)) =
      (s.loading nIdCount' (k + 1) []).mapInfo := by
  funext n
  rw [Function.update_apply]
  split_ifs with heq
  · subst heq
    have hentry : (s.loading nIdCount' (n + 1) []).mapInfo n = some (fileEntry info n (s.refsIn nId [])) :=
      loading_mapInfo hinfo hat (Nat.lt_succ_self n)
    rw [hentry]
    rfl
  · have hlt : n < k ↔ n < k + 1 := by omega
    simp only [loading, hlt]

theorem Consistent.loading_mapAddr_succ (h : Consistent env s) (hinfo : s.mapInfo nId = some info)
    {nIdCount nIdCount' k : Nat} (hat : s.order[k]? = some nId) :
    Function.update (s.loading nIdCount k []).mapAddr info.ip (some k) = (s.loading nIdCount' (k + 1) []).mapAddr := by
  have hk := (h.fileId_eq_iff hinfo).2 hat
  funext ip
  rw [Function.update_apply]
  split_ifs with heq
  · have haddr := (h.addr info.ip nId).2 ⟨info, hinfo, rfl⟩
    simp only [loading, heq, haddr, Option.bind_some, hk, if_pos (Nat.lt_succ_self k)]
  · cases haddr : s.mapAddr ip with
    | none => simp [loading, haddr]
    | some nId' =>
      rcases (h.addr ip nId').1 haddr with ⟨info', hinfo', hip⟩
      have hne : s.fileId nId' ≠ k := by
        intro hk'
        have hsame := h.fileId_inj hinfo' hinfo (hk'.trans hk.symm)
        subst hsame
        rw [hinfo] at hinfo'
        exact heq (by rw [Option.some.inj hinfo', hip])
      have hlt : s.fileId nId' < k ↔ s.fileId nId' < k + 1 := by omega
      simp only [loading, haddr, Option.bind_some, hlt]

/-- A new entry has no place in the tried table. -/
theorem Consistent.loading_vvTried_new (h : Consistent env s) {nIdCount nIdCount' k : Nat}
    (hk : k < s.newOrder.length) :
    (s.loading nIdCount k []).vvTried = (s.loading nIdCount' (k + 1) []).vvTried := by
  funext b i
  cases hslot : s.vvTried b i with
  | none => simp [loading, hslot]
  | some nId =>
    rcases h.triedSlot b i nId hslot with ⟨info, hinfo, hin⟩
    have hle := h.le_fileId_tried hinfo hin
    have hlt : s.fileId nId < k ↔ s.fileId nId < k + 1 := by omega
    simp only [loading, hslot, Option.bind_some, hlt]

/-- A tried entry has one. -/
theorem Consistent.loading_vvTried_tried (h : Consistent env s) (hinfo : s.mapInfo nId = some info)
    (hin : info.fInTried = true) {nIdCount nIdCount' k : Nat} (hat : s.order[k]? = some nId) :
    setSlot (s.loading nIdCount k []).vvTried (info.getTriedBucket env s.nKey)
        (info.getBucketPosition env s.nKey false (info.getTriedBucket env s.nKey)) (some k) =
      (s.loading nIdCount' (k + 1) []).vvTried := by
  have hk := (h.fileId_eq_iff hinfo).2 hat
  have hplace := (h.tried nId info hinfo hin).2.2
  funext b i
  unfold setSlot
  split_ifs with heq
  · have hslot : s.vvTried b i = some nId := (hplace b i).2 ⟨heq.1, by rw [heq.2, heq.1]⟩
    simp only [loading, hslot, Option.bind_some, hk, if_pos (Nat.lt_succ_self k)]
  · cases hslot : s.vvTried b i with
    | none => simp [loading, hslot]
    | some nId' =>
      rcases h.triedSlot b i nId' hslot with ⟨info', hinfo', -⟩
      have hne : s.fileId nId' ≠ k := by
        intro hk'
        have hsame := h.fileId_inj hinfo' hinfo (hk'.trans hk.symm)
        subst hsame
        rcases (hplace b i).1 hslot with ⟨rfl, rfl⟩
        exact heq ⟨rfl, rfl⟩
      have hlt : s.fileId nId' < k ↔ s.fileId nId' < k + 1 := by omega
      simp only [loading, hslot, Option.bind_some, hlt]

/-- A place that had not been taken is free. -/
theorem Consistent.loading_place_free (h : Consistent env s) (hinfo : s.mapInfo nId = some info)
    (hin : info.fInTried = true) {nIdCount k : Nat} (hat : s.order[k]? = some nId) :
    (s.loading nIdCount k []).vvTried (info.getTriedBucket env s.nKey)
      (info.getBucketPosition env s.nKey false (info.getTriedBucket env s.nKey)) = none := by
  have hk := (h.fileId_eq_iff hinfo).2 hat
  have hslot := ((h.tried nId info hinfo hin).2.2 _ _).2 ⟨rfl, rfl⟩
  simp only [loading, hslot, Option.bind_some, hk, if_neg (Nat.lt_irrefl k)]

/-! ## The entries are read -/

theorem Consistent.readNew (h : Consistent env s) (htyped : s.Typed) (hinfo : s.mapInfo nId = some info)
    (hin : info.fInTried = false) {k : Nat} (hat : s.order[k]? = some nId) (hk : k < s.newOrder.length) (rest : Bytes) :
    readNew env true (s.loading 0 k []) k (s.putId nId ++ rest) = some (s.loading 0 (k + 1) [], rest) := by
  have hnone : (s.loading 0 k []).mapInfo k = none := if_neg (Nat.lt_irrefl k)
  have hput : s.putId nId = info.put := by simp [putId, hinfo]
  have hread := CAddrInfo.get_put (htyped.entries nId info hinfo) .default rest
  have hentry : fileEntry info k 0 = { info with
      addr := { info.addr with nLastTry := 0 }, nRefCount := 0, fInTried := false, nRandomPos := k } := by
    rw [← hin]
    rfl
  have hlength : (s.loading 0 k []).vRandom.length = k := List.length_range
  have hmapInfo : Function.update (s.loading 0 k []).mapInfo k (some { info with
      addr := { info.addr with nLastTry := 0 }, nRefCount := 0, fInTried := false, nRandomPos := k }) =
        (s.loading 0 (k + 1) []).mapInfo := hentry ▸ loading_mapInfo_succ hinfo hat
  have hmapAddr : Function.update (s.loading 0 k []).mapAddr info.ip (some k) = (s.loading 0 (k + 1) []).mapAddr :=
    h.loading_mapAddr_succ hinfo hat
  have hvRandom : (s.loading 0 k []).vRandom ++ [k] = (s.loading 0 (k + 1) []).vRandom := List.range_succ.symm
  have hvvTried : (s.loading 0 k []).vvTried = (s.loading 0 (k + 1) []).vvTried := h.loading_vvTried_new hk
  rw [CAddrMan.readNew, hnone, Option.getD_none, hput, hread]
  simp only [Option.bind_eq_bind, Option.bind_some, if_true, hlength, setInfo, hvRandom, hvvTried]
  show some (CAddrMan.mk _ _ (Function.update _ k (some { info with
      addr := { info.addr with nLastTry := 0 }, nRefCount := 0, fInTried := false, nRandomPos := k }))
      (Function.update _ info.ip (some k)) _ _ _ _ _, rest) = _
  rw [hmapInfo, hmapAddr]
  rfl

theorem Consistent.readNews (h : Consistent env s) (htyped : s.Typed) (rest : Bytes) (rounds : Nat) :
    ∀ {k : Nat}, k + rounds = s.newOrder.length →
      readNews env true (List.range' k rounds) (s.loading 0 k []) ((s.newOrder.drop k).flatMap s.putId ++ rest) =
        some (s.loading 0 s.newOrder.length [], rest) := by
  induction rounds with
  | zero =>
    intro k hk
    obtain rfl : k = s.newOrder.length := hk
    rw [List.drop_length]
    rfl
  | succ rounds ih =>
    intro k hk
    have hlt : k < s.newOrder.length := by omega
    have hmem : s.newOrder[k] ∈ s.newOrder := List.getElem_mem hlt
    rcases h.mem_newOrder.1 hmem with ⟨info, hinfo, hin⟩
    have hat : s.order[k]? = some s.newOrder[k] := by
      rw [order, List.getElem?_append_left hlt, List.getElem?_eq_getElem hlt]
    have hread := h.readNew htyped hinfo hin hat hlt ((s.newOrder.drop (k + 1)).flatMap s.putId ++ rest)
    rw [List.drop_eq_getElem_cons hlt, List.flatMap_cons, List.append_assoc, List.range'_succ, CAddrMan.readNews, hread]
    exact ih (by omega)

theorem readTried_free {bs rest : Bytes} {nLost : Nat} (hread : CAddrInfo.default.get bs = some (info, rest))
    (hfree : s.vvTried (info.getTriedBucket env s.nKey)
      (info.getBucketPosition env s.nKey false (info.getTriedBucket env s.nKey)) = none) :
    readTried env s nLost bs = some ({ s with
      nIdCount := s.nIdCount + 1
      mapInfo := Function.update s.mapInfo s.nIdCount (some { info with nRandomPos := s.vRandom.length, fInTried := true })
      mapAddr := Function.update s.mapAddr info.ip (some s.nIdCount)
      vRandom := s.vRandom ++ [s.nIdCount]
      vvTried := setSlot s.vvTried (info.getTriedBucket env s.nKey)
        (info.getBucketPosition env s.nKey false (info.getTriedBucket env s.nKey)) (some s.nIdCount) }, nLost, rest) := by
  rw [readTried, hread]
  simp only [Option.bind_eq_bind, Option.bind_some, if_pos hfree]
  rfl

theorem Consistent.readTried (h : Consistent env s) (htyped : s.Typed) (hinfo : s.mapInfo nId = some info)
    (hin : info.fInTried = true) {k : Nat} (hat : s.order[k]? = some nId) (rest : Bytes) :
    readTried env (s.loading k k []) 0 (s.putId nId ++ rest) = some (s.loading (k + 1) (k + 1) [], 0, rest) := by
  have hput : s.putId nId = info.put := by simp [putId, hinfo]
  have hread := CAddrInfo.get_put (htyped.entries nId info hinfo) .default rest
  have hfree : (s.loading k k []).vvTried (info.getTriedBucket env s.nKey)
      (info.getBucketPosition env s.nKey false (info.getTriedBucket env s.nKey)) = none :=
    h.loading_place_free hinfo hin hat
  have hentry : fileEntry info k 0 = { info with
      addr := { info.addr with nLastTry := 0 }, nRefCount := 0, fInTried := true, nRandomPos := k } := by
    rw [← hin]
    rfl
  have hlength : (s.loading k k []).vRandom.length = k := List.length_range
  have hmapInfo : Function.update (s.loading k k []).mapInfo k (some { info with
      addr := { info.addr with nLastTry := 0 }, nRefCount := 0, fInTried := true, nRandomPos := k }) =
        (s.loading (k + 1) (k + 1) []).mapInfo := hentry ▸ loading_mapInfo_succ hinfo hat
  have hmapAddr : Function.update (s.loading k k []).mapAddr info.ip (some k) = (s.loading (k + 1) (k + 1) []).mapAddr :=
    h.loading_mapAddr_succ hinfo hat
  have hvRandom : (s.loading k k []).vRandom ++ [k] = (s.loading (k + 1) (k + 1) []).vRandom := List.range_succ.symm
  have hvvTried : setSlot (s.loading k k []).vvTried (info.getTriedBucket env s.nKey)
      (info.getBucketPosition env s.nKey false (info.getTriedBucket env s.nKey)) (some k) =
        (s.loading (k + 1) (k + 1) []).vvTried := h.loading_vvTried_tried hinfo hin hat
  rw [hput, readTried_free hread hfree, hlength]
  show some (CAddrMan.mk _ _ (Function.update _ k (some { info with
      addr := { info.addr with nLastTry := 0 }, nRefCount := 0, fInTried := true, nRandomPos := k }))
      (Function.update _ info.ip (some k)) ((s.loading k k []).vRandom ++ [k]) _ (setSlot _ (info.getTriedBucket env s.nKey)
        (info.getBucketPosition env s.nKey false (info.getTriedBucket env s.nKey)) (some k)) _ _, _) = _
  rw [hmapInfo, hmapAddr, hvRandom, hvvTried]
  rfl

theorem Consistent.readTrieds (h : Consistent env s) (htyped : s.Typed) (rest : Bytes) (rounds : Nat) :
    ∀ {k : Nat}, k + rounds = s.triedOrder.length →
      readTrieds env rounds (s.loading (s.newOrder.length + k) (s.newOrder.length + k) []) 0
          ((s.triedOrder.drop k).flatMap s.putId ++ rest) =
        some (s.loading s.order.length s.order.length [], 0, rest) := by
  induction rounds with
  | zero =>
    intro k hk
    obtain rfl : k = s.triedOrder.length := hk
    rw [List.drop_length, ← length_order]
    rfl
  | succ rounds ih =>
    intro k hk
    have hlt : k < s.triedOrder.length := by omega
    have hmem : s.triedOrder[k] ∈ s.triedOrder := List.getElem_mem hlt
    rcases h.mem_triedOrder.1 hmem with ⟨info, hinfo, hin⟩
    have hat : s.order[s.newOrder.length + k]? = some s.triedOrder[k] := by
      rw [order, List.getElem?_append_right (Nat.le_add_right _ _), Nat.add_sub_cancel_left, List.getElem?_eq_getElem hlt]
    have hread := h.readTried htyped hinfo hin hat ((s.triedOrder.drop (k + 1)).flatMap s.putId ++ rest)
    rw [List.drop_eq_getElem_cons hlt, List.flatMap_cons, List.append_assoc, CAddrMan.readTrieds, hread]
    exact ih (k := k + 1) (by omega)

/-! ## The places are read -/

theorem refsIn_concat (s : CAddrMan) (nId : Nat) (done : List (Nat × Nat)) (b i : Nat) :
    s.refsIn nId (done ++ [(b, i)]) = s.refsIn nId done + if s.vvNew b i = some nId then 1 else 0 := by
  simp [refsIn, List.countP_append, List.countP_singleton]

theorem loading_empty {b i : Nat} (hslot : s.vvNew b i = none) (nIdCount k : Nat) (done : List (Nat × Nat)) :
    s.loading nIdCount k (done ++ [(b, i)]) = s.loading nIdCount k done := by
  have hrefs : ∀ nId, s.refsIn nId (done ++ [(b, i)]) = s.refsIn nId done := fun nId => by
    simp [refsIn_concat, hslot]
  have hnew : (s.loading nIdCount k (done ++ [(b, i)])).vvNew = (s.loading nIdCount k done).vvNew := by
    funext b' i'
    by_cases heq : (b', i') = (b, i)
    · obtain ⟨rfl, rfl⟩ := Prod.mk.inj heq
      simp [loading, hslot]
    · have hmem : (b', i') ∈ done ++ [(b, i)] ↔ (b', i') ∈ done := by
        rw [List.mem_append, List.mem_singleton]
        exact or_iff_left heq
      simp only [loading, hmem]
  have hinfo : (s.loading nIdCount k (done ++ [(b, i)])).mapInfo = (s.loading nIdCount k done).mapInfo := by
    simp only [loading, hrefs]
  calc
    s.loading nIdCount k (done ++ [(b, i)]) = { s.loading nIdCount k done with
        mapInfo := (s.loading nIdCount k (done ++ [(b, i)])).mapInfo
        vvNew := (s.loading nIdCount k (done ++ [(b, i)])).vvNew } := rfl
    _ = s.loading nIdCount k done := by rw [hinfo, hnew]

theorem Consistent.loading_place (h : Consistent env s) {b i : Nat} (hslot : s.vvNew b i = some nId)
    (hinfo : s.mapInfo nId = some info) (done : List (Nat × Nat)) :
    { s.loading s.order.length s.order.length done with
      mapInfo := Function.update (s.loading s.order.length s.order.length done).mapInfo (s.fileId nId)
        (some (fileEntry info (s.fileId nId) (s.refsIn nId done + 1)))
      vvNew := setSlot (s.loading s.order.length s.order.length done).vvNew b i (some (s.fileId nId)) } =
    s.loading s.order.length s.order.length (done ++ [(b, i)]) := by
  have hentry : Function.update (s.loading s.order.length s.order.length done).mapInfo (s.fileId nId)
      (some (fileEntry info (s.fileId nId) (s.refsIn nId done + 1))) =
        (s.loading s.order.length s.order.length (done ++ [(b, i)])).mapInfo := by
    funext n
    rw [Function.update_apply]
    split_ifs with heq
    · rw [heq, loading_mapInfo hinfo (h.order_fileId hinfo) (h.fileId_lt hinfo), refsIn_concat, if_pos hslot]
    · -- The references of another entry are as many as before.
      simp only [loading]
      split_ifs with hlt
      · rw [List.getElem?_eq_getElem hlt, Option.bind_some, Option.bind_some]
        have hne : nId ≠ s.order[n] := fun hsame => heq
          ((h.fileId_eq_iff hinfo).2 (by rw [List.getElem?_eq_getElem hlt, hsame])).symm
        rw [refsIn_concat, if_neg (by rw [hslot]; exact fun hsame => hne (Option.some.inj hsame)), Nat.add_zero]
      · rfl
  have hnew : setSlot (s.loading s.order.length s.order.length done).vvNew b i (some (s.fileId nId)) =
      (s.loading s.order.length s.order.length (done ++ [(b, i)])).vvNew := by
    funext b' i'
    unfold setSlot
    split_ifs with heq
    · simp [loading, heq.1, heq.2, hslot]
    · have hmem : (b', i') ∈ done ++ [(b, i)] ↔ (b', i') ∈ done := by
        rw [List.mem_append, List.mem_singleton]
        exact or_iff_left fun hsame => heq (Prod.mk.inj hsame)
      simp only [loading, hmem]
  rw [hentry, hnew]
  rfl

theorem readPosition_free {bs rest : Bytes} {bucket n : Nat} (hread : (twos 4).get bs = some ((n : Int), rest))
    (hlt : (n : Int) < s.nNew) (hinfo : s.mapInfo n = some info)
    (hfree : s.vvNew bucket (info.getBucketPosition env s.nKey true bucket) = none)
    (hless : info.nRefCount < addrmanNewBucketsPerAddress) :
    readPosition env true bucket s bs = some ({ s with
      mapInfo := Function.update s.mapInfo n (some { info with nRefCount := info.nRefCount + 1 })
      vvNew := setSlot s.vvNew bucket (info.getBucketPosition env s.nKey true bucket) (some n) }, rest) := by
  have hrange : 0 ≤ (n : Int) ∧ (n : Int) < s.nNew := ⟨Int.natCast_nonneg n, hlt⟩
  rw [readPosition, hread]
  simp only [Option.bind_eq_bind, Option.bind_some, if_pos hrange, Int.toNat_natCast, hinfo, Option.getD_some, hfree,
    hless, and_self, if_true]
  rfl

theorem Consistent.readPosition (h : Consistent env s) (htyped : s.Typed) {b i : Nat} (hslot : s.vvNew b i = some nId)
    {done more : List (Nat × Nat)} (hslots : slots addrmanNewBucketCount = done ++ (b, i) :: more) (rest : Bytes) :
    readPosition env true b (s.loading s.order.length s.order.length done) ((twos 4).put (s.fileId nId) ++ rest) =
      some (s.loading s.order.length s.order.length (done ++ [(b, i)]), rest) := by
  rcases h.newSlot b i nId hslot with ⟨info, hinfo, hin, -, hpos⟩
  have hlt : (s.fileId nId : Int) < s.nNew := by
    rw [← h.length_newOrder]
    exact_mod_cast (h.fileId_new_lt hinfo hin).2
  have hread : (twos 4).get ((twos 4).put (s.fileId nId) ++ rest) = some ((s.fileId nId : Int), rest) := by
    have hnNew := htyped.nNew
    exact (twos 4).get_put (twos_fits_int (by omega) (by omega)) rest
  have hfresh : (b, i) ∉ done := by
    have hnodup := slots_nodup addrmanNewBucketCount
    rw [hslots] at hnodup
    exact fun hin => (List.nodup_append.1 hnodup).2.2 (b, i) hin (b, i) (List.mem_cons_self ..) rfl
  -- This place is one of those that the entry counts.
  have hless : s.refsIn nId done < 8 := by
    have hcount := h.core.countP_slots hinfo
    have hle := (h.new nId info hinfo hin).2.1
    have hsplit : s.refsIn nId (slots addrmanNewBucketCount) = s.refsIn nId (done ++ [(b, i)]) + s.refsIn nId more := by
      rw [hslots, refsIn, List.append_cons, List.countP_append]
      rfl
    rw [refsIn_concat, if_pos hslot] at hsplit
    have hle' : info.nRefCount ≤ 8 := hle
    rw [← hcount] at hle'
    have hle'' : s.refsIn nId (slots addrmanNewBucketCount) ≤ 8 := by exact_mod_cast hle'
    omega
  have hfree : (s.loading s.order.length s.order.length done).vvNew b
      (info.getBucketPosition env s.nKey true b) = none := by
    rw [← hpos]
    exact if_neg hfresh
  have hentry : (s.loading s.order.length s.order.length done).mapInfo (s.fileId nId) =
      some (fileEntry info (s.fileId nId) (s.refsIn nId done)) :=
    loading_mapInfo hinfo (h.order_fileId hinfo) (h.fileId_lt hinfo)
  have hcount : { fileEntry info (s.fileId nId) (s.refsIn nId done) with
      nRefCount := (fileEntry info (s.fileId nId) (s.refsIn nId done)).nRefCount + 1 } =
        fileEntry info (s.fileId nId) (s.refsIn nId done + 1) := by
    simp [fileEntry]
  rw [readPosition_free (s := s.loading s.order.length s.order.length done) hread hlt hentry hfree
    (show (s.refsIn nId done : Int) < 8 by exact_mod_cast hless), hcount, ← h.loading_place hslot hinfo done, hpos]
  rfl

theorem Consistent.readPositions (h : Consistent env s) (htyped : s.Typed) (b : Nat) (more : List (Nat × Nat))
    (rest : Bytes) (places : List Nat) : ∀ {done : List (Nat × Nat)},
    slots addrmanNewBucketCount = done ++ (places.map (b, ·) ++ more) →
    readPositions env true b (places.filterMap (s.vvNew b)).length (s.loading s.order.length s.order.length done)
        (putAll (twos 4) ((places.filterMap (s.vvNew b)).map fun nId => (s.fileId nId : Int)) ++ rest) =
      some (s.loading s.order.length s.order.length (done ++ places.map (b, ·)), rest) := by
  induction places with
  | nil =>
    intro done _
    rw [List.map_nil, List.append_nil]
    rfl
  | cons i places ih =>
    intro done hslots
    rw [List.map_cons, List.cons_append] at hslots
    have hrest := @ih (done ++ [(b, i)]) (by rw [List.append_assoc, List.singleton_append, hslots])
    rw [List.append_assoc, List.singleton_append] at hrest
    cases hslot : s.vvNew b i with
    | none =>
      rw [loading_empty hslot] at hrest
      rw [List.filterMap_cons_none hslot]
      exact hrest
    | some nId =>
      rw [List.filterMap_cons_some hslot, List.length_cons, List.map_cons, putAll, List.append_assoc,
        CAddrMan.readPositions, h.readPosition htyped hslot hslots]
      exact hrest

theorem Consistent.readBuckets (h : Consistent env s) (htyped : s.Typed) (rest : Bytes) (buckets : List Nat) :
    ∀ {done : List (Nat × Nat)},
    slots addrmanNewBucketCount = done ++ buckets.flatMap (fun b => (List.range addrmanBucketSize).map (b, ·)) →
    readBuckets env true buckets (s.loading s.order.length s.order.length done)
        (buckets.flatMap (s.writeBucket s.fileId) ++ rest) =
      some (s.loading s.order.length s.order.length (slots addrmanNewBucketCount), rest) := by
  induction buckets with
  | nil =>
    intro done hslots
    rw [List.flatMap_nil, List.append_nil] at hslots
    rw [hslots]
    rfl
  | cons b buckets ih =>
    intro done hslots
    rw [List.flatMap_cons] at hslots
    have hsize : ((List.range addrmanBucketSize).filterMap (s.vvNew b)).length ≤ 64 := by
      have hle := List.length_filterMap_le (s.vvNew b) (List.range addrmanBucketSize)
      rwa [List.length_range] at hle
    have hread (bs : Bytes) : (twos 4).get ((twos 4).put ((List.range addrmanBucketSize).filterMap (s.vvNew b)).length ++ bs) =
        some ((((List.range addrmanBucketSize).filterMap (s.vvNew b)).length : Int), bs) :=
      (twos 4).get_put (twos_fits_int (by omega) (by omega)) bs
    have hpositions := h.readPositions htyped b _ (buckets.flatMap (s.writeBucket s.fileId) ++ rest)
      (List.range addrmanBucketSize) hslots
    rw [List.flatMap_cons, writeBucket, List.append_assoc, List.append_assoc, CAddrMan.readBuckets, hread]
    simp only [Option.bind_eq_bind, Option.bind_some, Int.toNat_natCast, hpositions]
    exact ih (by rw [List.append_assoc, hslots])

theorem slots_eq (nBuckets : Nat) :
    slots nBuckets = (List.range nBuckets).flatMap fun b => (List.range addrmanBucketSize).map (b, ·) :=
  rfl

/-! ## The loaded state -/

/-- The state with the ids of the file. -/
def reloaded (s : CAddrMan) : CAddrMan :=
  s.loading s.order.length s.order.length (slots addrmanNewBucketCount)

theorem Consistent.reloaded_mapInfo (h : Consistent env s) (hinfo : s.mapInfo nId = some info) :
    s.reloaded.mapInfo (s.fileId nId) = some { info with
      addr := { info.addr with nLastTry := 0 }, nRandomPos := s.fileId nId } := by
  have hcount : (s.refsIn nId (slots addrmanNewBucketCount) : Int) = info.nRefCount := h.core.countP_slots hinfo
  rw [reloaded, loading_mapInfo hinfo (h.order_fileId hinfo) (h.fileId_lt hinfo), fileEntry, hcount]

theorem Consistent.of_reloaded_mapInfo (h : Consistent env s) {n : Nat} {info' : CAddrInfo}
    (hinfo' : s.reloaded.mapInfo n = some info') :
    ∃ nId info, s.mapInfo nId = some info ∧ s.fileId nId = n ∧
      info' = { info with addr := { info.addr with nLastTry := 0 }, nRandomPos := n } := by
  by_cases hlt : n < s.order.length
  · rcases h.mem_order.1 (List.getElem_mem hlt) with ⟨info, hinfo⟩
    have hn : s.fileId s.order[n] = n := (h.fileId_eq_iff hinfo).2 (List.getElem?_eq_getElem hlt)
    refine ⟨s.order[n], info, hinfo, hn, ?_⟩
    have hentry := h.reloaded_mapInfo hinfo
    rw [hn, hinfo'] at hentry
    exact Option.some.inj hentry
  · have hnone : s.reloaded.mapInfo n = none := if_neg hlt
    rw [hnone] at hinfo'
    cases hinfo'

theorem Consistent.reloaded_vvTried (h : Consistent env s) (b i : Nat) :
    s.reloaded.vvTried b i = (s.vvTried b i).map s.fileId := by
  cases hslot : s.vvTried b i with
  | none => simp [reloaded, loading, hslot]
  | some nId =>
    rcases h.triedSlot b i nId hslot with ⟨info, hinfo, -⟩
    simp [reloaded, loading, hslot, h.fileId_lt hinfo]

theorem Consistent.reloaded_vvNew (h : Consistent env s) (b i : Nat) :
    s.reloaded.vvNew b i = (s.vvNew b i).map s.fileId := by
  cases hslot : s.vvNew b i with
  | none => simp [reloaded, loading, hslot]
  | some nId =>
    rcases h.newSlot b i nId hslot with ⟨info, -, -, hb, hi⟩
    have hmem : (b, i) ∈ slots addrmanNewBucketCount := mem_slots.2 ⟨hb, by rw [hi]; exact Nat.mod_lt _ (by decide)⟩
    simp [reloaded, loading, hslot, hmem]

theorem Consistent.reloaded_mapAddr (h : Consistent env s) (ip : CNetAddr) :
    s.reloaded.mapAddr ip = (s.mapAddr ip).map s.fileId := by
  cases haddr : s.mapAddr ip with
  | none => simp [reloaded, loading, haddr]
  | some nId =>
    rcases (h.addr ip nId).1 haddr with ⟨info, hinfo, -⟩
    simp [reloaded, loading, haddr, h.fileId_lt hinfo]

/-- The ids of the entries with a property, as they are in the file. -/
theorem Consistent.reloaded_ids (h : Consistent env s) (fInTried : Bool) :
    {n | ∃ info, s.reloaded.mapInfo n = some info ∧ info.fInTried = fInTried}.ncard =
      {nId | ∃ info, s.mapInfo nId = some info ∧ info.fInTried = fInTried}.ncard := by
  have himage : {n | ∃ info, s.reloaded.mapInfo n = some info ∧ info.fInTried = fInTried} =
      s.fileId '' {nId | ∃ info, s.mapInfo nId = some info ∧ info.fInTried = fInTried} := by
    ext n
    constructor
    · rintro ⟨info', hinfo', hin⟩
      rcases h.of_reloaded_mapInfo hinfo' with ⟨nId, info, hinfo, hn, rfl⟩
      exact ⟨nId, ⟨info, hinfo, hin⟩, hn⟩
    · rintro ⟨nId, ⟨info, hinfo, hin⟩, rfl⟩
      exact ⟨_, h.reloaded_mapInfo hinfo, hin⟩
  rw [himage]
  refine Set.InjOn.ncard_image ?_
  rintro nId ⟨info, hinfo, -⟩ nId' ⟨info', hinfo', -⟩ heq
  exact h.fileId_inj hinfo hinfo' heq

theorem Consistent.map_fileId (h : Consistent env s) (hinfo : s.mapInfo nId = some info) {slot : Option Nat}
    (hslot : ∀ nId', slot = some nId' → ∃ info', s.mapInfo nId' = some info') :
    slot.map s.fileId = some (s.fileId nId) ↔ slot = some nId := by
  constructor
  · intro hmap
    rcases Option.map_eq_some_iff.1 hmap with ⟨nId', rfl, heq⟩
    rcases hslot nId' rfl with ⟨info', hinfo'⟩
    rw [h.fileId_inj hinfo' hinfo heq]
  · rintro rfl
    rfl

/-- The loaded state is consistent again. -/
theorem Consistent.reloaded (h : Consistent env s) : Consistent env s.reloaded := by
  have htriedAt : ∀ {nId info}, s.mapInfo nId = some info → ∀ b i,
      s.reloaded.vvTried b i = some (s.fileId nId) ↔ s.vvTried b i = some nId := by
    intro nId info hinfo b i
    rw [h.reloaded_vvTried]
    exact h.map_fileId hinfo fun nId' hslot => (h.triedSlot b i nId' hslot).imp fun _ h' => h'.1
  have hnewAt : ∀ {nId info}, s.mapInfo nId = some info → ∀ b i,
      s.reloaded.vvNew b i = some (s.fileId nId) ↔ s.vvNew b i = some nId := by
    intro nId info hinfo b i
    rw [h.reloaded_vvNew]
    exact h.map_fileId hinfo fun nId' hslot => (h.newSlot b i nId' hslot).imp fun _ h' => h'.1
  refine ⟨h.key, ?_, ?_, ?_, ?_, ?_, ?_, ?_, ?_, ?_, ?_, ?_, ?_⟩
  · intro n info' hinfo'
    rcases h.of_reloaded_mapInfo hinfo' with ⟨nId, info, hinfo, rfl, -⟩
    exact h.fileId_lt hinfo
  · intro n info' hinfo'
    rcases h.of_reloaded_mapInfo hinfo' with ⟨nId, info, hinfo, rfl, rfl⟩
    exact List.getElem?_range (h.fileId_lt hinfo)
  · intro n n' hlisted
    have hlisted' : (List.range s.order.length)[n]? = some n' := hlisted
    rcases List.getElem?_eq_some_iff.1 hlisted' with ⟨hlt, heq⟩
    rw [List.getElem_range] at heq
    subst heq
    rw [List.length_range] at hlt
    rcases h.mem_order.1 (List.getElem_mem hlt) with ⟨info, hinfo⟩
    have hn : s.fileId s.order[n] = n := (h.fileId_eq_iff hinfo).2 (List.getElem?_eq_getElem hlt)
    have hentry := h.reloaded_mapInfo hinfo
    rw [hn] at hentry
    exact ⟨_, hentry, rfl⟩
  · intro ip n
    rw [h.reloaded_mapAddr, Option.map_eq_some_iff]
    constructor
    · rintro ⟨nId, haddr, rfl⟩
      rcases (h.addr ip nId).1 haddr with ⟨info, hinfo, hip⟩
      exact ⟨_, h.reloaded_mapInfo hinfo, hip⟩
    · rintro ⟨info', hinfo', hip⟩
      rcases h.of_reloaded_mapInfo hinfo' with ⟨nId, info, hinfo, hn, rfl⟩
      exact ⟨nId, (h.addr ip nId).2 ⟨info, hinfo, hip⟩, hn⟩
  · intro n info' hinfo'
    rcases h.of_reloaded_mapInfo hinfo' with ⟨nId, info, hinfo, rfl, rfl⟩
    exact le_refl 0
  · intro n info' hinfo'
    rcases h.of_reloaded_mapInfo hinfo' with ⟨nId, info, hinfo, rfl, rfl⟩
    exact h.lastSuccess nId info hinfo
  · intro n info' hinfo' hin
    rcases h.of_reloaded_mapInfo hinfo' with ⟨nId, info, hinfo, rfl, rfl⟩
    rcases h.tried nId info hinfo hin with ⟨hsucceeded, hzero, hplace⟩
    exact ⟨hsucceeded, hzero, fun b i => (htriedAt hinfo b i).trans (hplace b i)⟩
  · intro n info' hinfo' hin
    rcases h.of_reloaded_mapInfo hinfo' with ⟨nId, info, hinfo, rfl, rfl⟩
    rcases h.new nId info hinfo hin with ⟨hpos, hle, hcount⟩
    refine ⟨hpos, hle, ?_⟩
    simp only [hnewAt hinfo]
    exact hcount
  · intro b i n hslot
    rw [h.reloaded_vvTried] at hslot
    rcases Option.map_eq_some_iff.1 hslot with ⟨nId, hslot', rfl⟩
    rcases h.triedSlot b i nId hslot' with ⟨info, hinfo, hin⟩
    exact ⟨_, h.reloaded_mapInfo hinfo, hin⟩
  · intro b i n hslot
    rw [h.reloaded_vvNew] at hslot
    rcases Option.map_eq_some_iff.1 hslot with ⟨nId, hslot', rfl⟩
    rcases h.newSlot b i nId hslot' with ⟨info, hinfo, hin, hb, hi⟩
    exact ⟨_, h.reloaded_mapInfo hinfo, hin, hb, hi⟩
  · rw [h.reloaded_ids]
    exact h.nTried
  · rw [h.reloaded_ids]
    exact h.nNew

/-- No entry of a consistent state is pruned. -/
theorem Consistent.foldlM_prune (h : Consistent env s) (ids : List Nat) : ids.foldlM prune s = some s := by
  have hkept : ∀ nId, s.prune nId = some s := by
    intro nId
    unfold prune
    cases hinfo : s.mapInfo nId with
    | none => rfl
    | some info =>
      have hnot : ¬(info.fInTried = false ∧ info.nRefCount = 0) := by
        rintro ⟨hin, hzero⟩
        have hpos := (h.new nId info hinfo hin).1
        omega
      simp only [if_neg hnot]
  induction ids with
  | nil => rfl
  | cons nId ids ih =>
    rw [List.foldlM_cons, hkept]
    exact ih

/-- `Unserialize` reads what `Serialize` wrote: nothing is lost, and nothing is pruned. -/
theorem Consistent.unserialize (h : Consistent env s) (htyped : s.Typed) :
    ∃ bs, s.serialize = some bs ∧ unserialize env bs = some s.reloaded := by
  refine ⟨_, h.serialize, ?_⟩
  have hnNew : s.nNew.toNat = s.newOrder.length := by rw [← h.length_newOrder, Int.toNat_natCast]
  have hnTried : s.nTried.toNat = s.triedOrder.length := by rw [← h.length_triedOrder, Int.toNat_natCast]
  have hnNewFits : (twos 4).Fits s.nNew := by
    have hlt := htyped.nNew
    have hlength := h.length_newOrder
    exact twos_fits_int (by omega) hlt
  have hnTriedFits : (twos 4).Fits s.nTried := by
    have hlt := htyped.nTried
    have hlength := h.length_triedOrder
    exact twos_fits_int (by omega) hlt
  have hkeyFits : uint256Codec.Fits s.nKey := s.nKey.isLt
  have hbucketsFits : (twos 4).Fits ((addrmanNewBucketCount ^^^ 2 ^ 30 : Nat) : Int) :=
    twos_fits_int (by decide) (by decide)
  have hnUBuckets : (BitVec.ofInt 32 ((addrmanNewBucketCount ^^^ 2 ^ 30 : Nat) : Int) ^^^ BitVec.ofNat 32 (2 ^ 30)).toInt =
      addrmanNewBucketCount := by decide
  have hnews := h.readNews htyped (s.triedOrder.flatMap s.putId ++
    (List.range addrmanNewBucketCount).flatMap (s.writeBucket s.fileId)) s.newOrder.length (Nat.zero_add _)
  have htrieds := h.readTrieds htyped ((List.range addrmanNewBucketCount).flatMap (s.writeBucket s.fileId))
    s.triedOrder.length (Nat.zero_add _)
  have hbuckets := h.readBuckets htyped [] (List.range addrmanNewBucketCount)
    (show slots addrmanNewBucketCount = [] ++ _ by rw [List.nil_append, slots_eq])
  rw [List.drop_zero, loading_zero, ← List.range_eq_range'] at hnews
  rw [List.drop_zero, Nat.add_zero] at htrieds
  rw [List.append_nil] at hbuckets
  have hone : ∀ bs, byte.get (byte.put 1 ++ bs) = some (1, bs) := fun bs => byte.get_put trivial bs
  have hsize : ∀ bs, byte.get (byte.put 32 ++ bs) = some (32, bs) := fun bs => byte.get_put trivial bs
  simp only [CAddrMan.unserialize, hone, hsize, Option.bind_eq_bind, Option.bind_some, uint256Codec.get_put hkeyFits,
    (twos 4).get_put hnNewFits, (twos 4).get_put hnTriedFits, (twos 4).get_put hbucketsFits, hnNew, hnTried]
  rw [if_neg (show ¬(32 : UInt8) ≠ 32 by decide)]
  simp only [if_pos (show (1 : UInt8) ≠ 0 by decide), hnUBuckets, and_self, decide_true, Int.toNat_natCast]
  rw [hnews, Option.bind_some]
  -- The three passes, each from the state that the one before left.
  show Option.bind (CAddrMan.readTrieds env s.triedOrder.length (s.loading s.newOrder.length s.newOrder.length []) 0 _)
    _ = _
  rw [htrieds, Option.bind_some]
  have hlost : s.nTried - ((0 : Nat) : Int) = s.nTried := Int.sub_zero _
  show Option.bind (CAddrMan.readBuckets env true (List.range addrmanNewBucketCount)
    { s.loading s.order.length s.order.length [] with nTried := s.nTried - ((0 : Nat) : Int) } _) _ = _
  rw [hlost]
  show Option.bind (CAddrMan.readBuckets env true (List.range addrmanNewBucketCount)
    (s.loading s.order.length s.order.length []) _) _ = _
  rw [hbuckets, Option.bind_some]
  exact h.reloaded.foldlM_prune _

/-- The same entries under other ids, in the same places; only the last tries are forgotten. -/
structure Renumbered (rename : Nat → Nat) (s s' : CAddrMan) : Prop where
  nKey : s'.nKey = s.nKey
  entry : ∀ nId info, s.mapInfo nId = some info → ∃ info', s'.mapInfo (rename nId) = some info' ∧
    info'.addr.service = info.addr.service ∧ info'.addr.nServices = info.addr.nServices ∧
    info'.addr.nTime = info.addr.nTime ∧ info'.source = info.source ∧ info'.nLastSuccess = info.nLastSuccess ∧
    info'.nAttempts = info.nAttempts ∧ info'.fInTried = info.fInTried ∧ info'.nRefCount = info.nRefCount
  injective : ∀ nId info nId' info', s.mapInfo nId = some info → s.mapInfo nId' = some info' →
    rename nId = rename nId' → nId = nId'
  onto : ∀ n info', s'.mapInfo n = some info' → ∃ nId info, s.mapInfo nId = some info ∧ rename nId = n
  vvTried : ∀ b i, s'.vvTried b i = (s.vvTried b i).map rename
  vvNew : ∀ b i, s'.vvNew b i = (s.vvNew b i).map rename

/-- Saving and loading a consistent address manager gives a consistent one, the same up to ids. -/
theorem loaded_renumbered (h : Consistent env s) (htyped : s.Typed) :
    ∃ bs s', s.serialize = some bs ∧ CAddrMan.unserialize env bs = some s' ∧ Consistent env s' ∧
      ∃ rename, Renumbered rename s s' := by
  rcases h.unserialize htyped with ⟨bs, hwritten, hread⟩
  refine ⟨bs, s.reloaded, hwritten, hread, h.reloaded, s.fileId, rfl, fun nId info hinfo => ?_,
    fun _ _ _ _ hinfo hinfo' => h.fileId_inj hinfo hinfo', fun n info' hinfo' => ?_, h.reloaded_vvTried, h.reloaded_vvNew⟩
  · exact ⟨_, h.reloaded_mapInfo hinfo, rfl, rfl, rfl, rfl, rfl, rfl, rfl, rfl⟩
  · rcases h.of_reloaded_mapInfo hinfo' with ⟨nId, info, hinfo, hn, -⟩
    exact ⟨nId, info, hinfo, hn⟩

/-- Two addresses at different places. -/
def twoAdds : List Op :=
  [.add ⟨sampleService, 1, 1400000000, 0⟩ sampleSource 0 1400000000 false,
    .add ⟨{ collidingService with port := 19986 }, 1, 1400000000, 0⟩ sampleSource 0 1400000000 false]

def twoAddsState : CAddrMan :=
  ((start 1).run oneBucketEnv twoAdds).getD (start 1)

instance (info : CAddrInfo) : Decidable info.Typed :=
  decidable_of_iff (info.addr.nTime < 2 ^ 32 ∧ info.addr.nServices < 2 ^ 64 ∧ info.addr.service.ip.length = 16 ∧
      info.addr.service.port < 2 ^ 16 ∧ info.source.length = 16 ∧
      (-2 ^ 63 ≤ info.nLastSuccess ∧ info.nLastSuccess < 2 ^ 63) ∧ -2 ^ 31 ≤ info.nAttempts ∧ info.nAttempts < 2 ^ 31)
    ⟨fun ⟨h1, h2, h3, h4, h5, h6, h7⟩ => ⟨h1, h2, h3, h4, h5, h6, h7⟩,
      fun h => ⟨h.nTime, h.nServices, h.ip, h.port, h.source, h.nLastSuccess, h.nAttempts⟩⟩

theorem loaded_renumbered_twoAdds :
    ∃ bs s', twoAddsState.serialize = some bs ∧ CAddrMan.unserialize oneBucketEnv bs = some s' ∧
      Consistent oneBucketEnv s' ∧ ∃ rename, Renumbered rename twoAddsState s' := by
  have hconsistent : Consistent oneBucketEnv twoAddsState := by
    rcases (sound_start oneBucketEnv (show (1 : UInt256) ≠ 0 by decide)).run twoAdds (by simp [twoAdds, Op.Timed])
      with ⟨s, hrun, hsound⟩
    rw [twoAddsState, hrun]
    exact hsound.consistent
  have hentries : ∀ nId < 2, ∀ info ∈ twoAddsState.mapInfo nId, info.Typed := by
    decide
  refine loaded_renumbered hconsistent ⟨by decide, by decide, fun nId info hinfo => hentries nId ?_ info hinfo⟩
  exact hconsistent.bounded nId info hinfo

end CAddrMan

end Dobbscoin
