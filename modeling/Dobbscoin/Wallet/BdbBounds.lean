import Dobbscoin.Wallet.BdbReadAll

/-!
# Bounds of the reader

On any bytes at all: the reads stay in the buffer, what is copied stays in its page, and every loop ends.
-/

namespace Dobbscoin

namespace BerkeleyRO

open Traced

/-- The page that an access decodes. -/
def Access.expanded : Access → Option Nat
  | .expand pgno => some pgno
  | _ => none

/-- A read is inside the buffer, and a copy inside its page as well. -/
def Access.Inside (f : BDBFile) : Access → Prop
  | .read lo hi => lo ≤ hi ∧ hi ≤ f.buf.length
  | .copy pgno lo hi =>
    pgno * f.pagesize ≤ lo ∧ lo ≤ hi ∧ hi ≤ pgno * f.pagesize + f.pagesize ∧ hi ≤ f.buf.length
  | .expand _ => True

/-- Inside the bounds, and without a loop that does not end. -/
abbrev Bounded (f : BDBFile) {α : Type} (x : ReadM α) : Prop :=
  Safe (Access.Inside f) (fun e => e ≠ .outOfFuel) x

/-- Bounded, and no page is decoded. -/
abbrev Quiet (f : BDBFile) {α : Type} (x : ReadM α) : Prop :=
  Safe (fun t => t.Inside f ∧ t.expanded = none) (fun e => e ≠ .outOfFuel) x

section

variable {f : BDBFile} {α : Type}

theorem Quiet.bounded {x : ReadM α} (h : Quiet f x) : Bounded f x :=
  h.mono (fun _ ht => ht.1) fun _ he => he

theorem Quiet.silent {x : ReadM α} (h : Quiet f x) : x.pick Access.expanded = [] :=
  (h.mono (fun _ ht => ht.2) fun _ he => he).pick_eq_nil

theorem quiet_thrown (what : String) : Quiet f (Traced.fail (.thrown what) : ReadM α) :=
  safe_fail (fun h => by cases h)

theorem quiet_throwIf {c : Prop} [Decidable c] (what : String) : Quiet f (throwIf c what) :=
  safe_failIf (fun h => by cases h)

theorem quiet_get {g : BDBFile} (hg : g.buf = f.buf) (w off : Nat) : Quiet f (g.get w off) := by
  apply (quiet_throwIf _).bind
  intro _ hin
  rw [throwIf_returns, not_lt, hg] at hin
  apply Safe.bind (safe_emit ⟨⟨Nat.le_add_right _ _, hin⟩, rfl⟩)
  intro _ _
  exact safe_pure _

theorem quiet_pageOffset (pgno : Nat) : Quiet f (f.pageOffset pgno) :=
  (quiet_throwIf _).bind fun _ _ => safe_pure _

theorem quiet_copy {pgno lo hi : Nat} (hin : pgno < f.numPages) (hlo : pgno * f.pagesize ≤ lo)
    (hlohi : lo ≤ hi) (hhi : hi ≤ pgno * f.pagesize + f.pagesize) : Quiet f (f.copy pgno lo hi) := by
  have hpage := BDBFile.page_in_buf hin
  apply Safe.bind (safe_emit ⟨⟨hlo, hlohi, hhi, hhi.trans hpage⟩, rfl⟩)
  intro _ _
  exact safe_pure _

theorem quiet_readMeta (pgno : Nat) : Quiet f (f.readMeta pgno) := by
  refine (quiet_pageOffset pgno).bind fun _ _ => ?_
  iterate 9 refine (quiet_get rfl _ _).bind fun _ _ => ?_
  iterate 7 refine (quiet_throwIf _).bind fun _ _ => ?_
  exact safe_pure _

theorem quiet_readHeader (pgno : Nat) : Quiet f (f.readHeader pgno) := by
  refine (quiet_pageOffset pgno).bind fun _ _ => ?_
  iterate 9 refine (quiet_get rfl _ _).bind fun _ _ => ?_
  refine (quiet_throwIf _).bind fun _ _ => ?_
  exact safe_pure _

theorem quiet_itemOffset (pgno : Nat) (h : PageHeader) (i minlen : Nat) :
    Quiet f (f.itemOffset pgno h i minlen) := by
  refine (quiet_pageOffset pgno).bind fun _ _ => ?_
  refine (quiet_throwIf _).bind fun _ _ => ?_
  refine (quiet_get rfl _ _).bind fun _ _ => ?_
  refine (quiet_throwIf _).bind fun _ _ => ?_
  exact safe_pure _

/-! ## Overflow chains -/

section

variable (hps : 512 ≤ f.pagesize)
include hps

/-- The chain has no more pages than the file, so the loop ends before its fuel does. -/
theorem quiet_readOverflowLoop (totalLen : Nat) {fuel : Nat} {seen : List Nat} {out : Bytes} {pgno : Nat}
    (hnodup : seen.Nodup) (hseen : ∀ p ∈ seen, p < f.numPages) (hfuel : f.numPages < seen.length + fuel) :
    Quiet f (f.readOverflowLoop totalLen fuel seen out pgno) := by
  induction fuel generalizing seen out pgno with
  | zero =>
    have hle := BDBFile.length_le_numPages hnodup hseen
    exact absurd hfuel (by omega)
  | succ fuel ih =>
    rw [BDBFile.readOverflowLoop]
    split_ifs
    · exact safe_pure _
    refine (quiet_throwIf _).bind fun _ hfresh => ?_
    refine (quiet_readHeader pgno).bind fun h hh => ?_
    rcases (BDBFile.readHeader_returns hps).1 hh with ⟨hin, -, rfl⟩
    refine (quiet_throwIf _).bind fun _ _ => ?_
    refine (quiet_throwIf _).bind fun _ hfits => ?_
    refine (quiet_pageOffset pgno).bind fun base hbase => ?_
    rcases BDBFile.pageOffset_returns.1 hbase with ⟨rfl, -⟩
    rw [throwIf_returns, not_lt] at hfits
    refine (quiet_copy hin (by omega) (by omega) (by omega)).bind fun part _ => ?_
    refine (quiet_throwIf _).bind fun _ _ => ?_
    refine ih (List.nodup_cons.2 ⟨throwIf_returns.1 hfresh, hnodup⟩) ?_ ?_
    · intro p hp
      rcases List.mem_cons.1 hp with rfl | hp
      · exact hin
      · exact hseen p hp
    · rw [List.length_cons]
      omega

theorem quiet_readOverflow (first totalLen : Nat) : Quiet f (f.readOverflow first totalLen) := by
  have hloop : Quiet f (f.readOverflowLoop totalLen (f.numPages + 1) [] [] first) :=
    quiet_readOverflowLoop hps totalLen List.nodup_nil (fun _ hp => absurd hp List.not_mem_nil) (by simp)
  refine hloop.bind fun _ _ => ?_
  refine (quiet_throwIf _).bind fun _ _ => ?_
  exact safe_pure _

/-! ## Items -/

theorem quiet_readLeafItem (pgno : Nat) (h : PageHeader) (i : Nat) :
    Quiet f (f.readLeafItem pgno h i) := by
  refine (quiet_pageOffset pgno).bind fun base hbase => ?_
  rcases BDBFile.pageOffset_returns.1 hbase with ⟨rfl, hin⟩
  refine (quiet_itemOffset pgno h i 3).bind fun off _ => ?_
  refine (quiet_get rfl _ _).bind fun len _ => ?_
  refine (quiet_get rfl _ _).bind fun flagged _ => ?_
  dsimp only
  split_ifs
  · refine (quiet_throwIf _).bind fun _ hfits => ?_
    rw [throwIf_returns, not_lt] at hfits
    refine (quiet_copy hin (by omega) (by omega) (by omega)).bind fun data _ => ?_
    exact safe_pure _
  · refine (quiet_throwIf _).bind fun _ _ => ?_
    refine (quiet_get rfl _ _).bind fun first _ => ?_
    refine (quiet_get rfl _ _).bind fun total _ => ?_
    exact safe_pure _
  · refine (quiet_throwIf _).bind fun _ _ => ?_
    refine (quiet_get rfl _ _).bind fun first _ => ?_
    refine (quiet_get rfl _ _).bind fun total _ => ?_
    refine (quiet_readOverflow hps first total).bind fun data _ => ?_
    exact safe_pure _
  · exact quiet_thrown _

theorem quiet_readLeafItems (pgno : Nat) (h : PageHeader) : Quiet f (f.readLeafItems pgno h) :=
  safe_collect fun i _ => quiet_readLeafItem hps pgno h i

omit hps in
theorem quiet_readInternalChild (pgno base : Nat) (h : PageHeader) (i : Nat) :
    Quiet f (f.readInternalChild pgno base h i) := by
  refine (quiet_itemOffset pgno h i 12).bind fun off _ => ?_
  refine (quiet_get rfl _ _).bind fun len _ => ?_
  refine (quiet_get rfl _ _).bind fun type _ => ?_
  iterate 3 refine (quiet_throwIf _).bind fun _ _ => ?_
  exact quiet_get rfl _ _

/-- A page is decoded: an event that says so, and quiet work. -/
structure Decodes (f : BDBFile) (pgno : Nat) {α : Type} (x : ReadM α) : Prop where
  bounded : Bounded f x
  expanded : x.pick Access.expanded = [pgno]

omit hps in
theorem decodes_of_quiet {pgno : Nat} {g : Unit → ReadM α} (h : Quiet f (g ())) :
    Decodes f pgno (emit (.expand pgno) >>= g) := by
  refine ⟨Safe.bind (safe_emit trivial) fun _ _ => h.bounded, ?_⟩
  refine pick_bind (S := fun l => l = [pgno]) rfl fun _ _ => ?_
  rw [h.silent, List.append_nil]
  rfl

omit hps in
theorem decodes_readInternalChildren (pgno : Nat) (h : PageHeader) :
    Decodes f pgno (f.readInternalChildren pgno h) := by
  apply decodes_of_quiet
  refine (quiet_pageOffset pgno).bind fun base _ => ?_
  exact safe_collect fun i _ => quiet_readInternalChild pgno base h i

theorem decodes_leafPairs (pgno : Nat) (h : PageHeader) : Decodes f pgno (leafPairs f pgno h) := by
  apply decodes_of_quiet
  refine (quiet_readLeafItems hps pgno h).bind fun items _ => ?_
  cases pairUp items with
  | none => exact quiet_thrown _
  | some pairs => exact safe_pure _

/-! ## The walk -/

omit hps in
theorem quiet_insertAll (records : RecordMap) (rs : RecordList) : Quiet f (insertAll records rs) := by
  induction rs generalizing records with
  | nil => exact safe_pure _
  | cons r rs ih =>
    rw [insertAll]
    cases records.insert r with
    | none => exact quiet_thrown _
    | some records => exact ih records

/-- What a walk decodes: no page twice, none that was visited before, and the top of the stack first. -/
structure Walked (visited : List Nat) (stack : List (Nat × Int)) (pgnos : List Nat) : Prop where
  nodup : pgnos.Nodup
  fresh : ∀ p ∈ pgnos, p ∉ visited
  first : ∀ p, pgnos.head? = some p → (stack.head?.map Prod.fst) = some p

omit hps in
theorem walked_nil (visited : List Nat) (stack : List (Nat × Int)) : Walked visited stack [] :=
  ⟨List.nodup_nil, fun _ hp => absurd hp List.not_mem_nil, fun _ hp => by cases hp⟩

omit hps in
/-- One page more in front. -/
theorem Walked.cons {pgno : Nat} {level : Int} {visited pgnos : List Nat}
    {stack stack' : List (Nat × Int)} (h : Walked (pgno :: visited) stack' pgnos)
    (hvisited : pgno ∉ visited) : Walked visited ((pgno, level) :: stack) (pgno :: pgnos) := by
  rcases fresh_cons hvisited h.nodup h.fresh with ⟨hnodup, hfresh⟩
  exact ⟨hnodup, hfresh, fun p hp => hp⟩

theorem walked_walk (fuel : Nat) (visited : List Nat) (stack : List (Nat × Int)) (records : RecordMap) :
    Walked visited stack ((walk f fuel visited stack records).pick Access.expanded) := by
  induction fuel generalizing visited stack records with
  | zero => exact walked_nil _ _
  | succ fuel ih =>
    match stack with
    | [] => exact walked_nil _ _
    | (pgno, expectedLevel) :: stack =>
      rw [walk]
      have hnil := walked_nil visited ((pgno, expectedLevel) :: stack)
      refine pick_bind_of_nil (quiet_throwIf (f := f) _).silent hnil fun _ hvisited => ?_
      rw [throwIf_returns] at hvisited
      refine pick_bind_of_nil (quiet_readHeader pgno).silent hnil fun h _ => ?_
      refine pick_bind_of_nil (quiet_throwIf (f := f) _).silent hnil fun _ _ => ?_
      -- A page that has been decoded is in front of whatever follows it.
      have hone : Walked visited ((pgno, expectedLevel) :: stack) [pgno] :=
        (walked_nil (pgno :: visited) stack).cons hvisited
      split_ifs
      · refine pick_bind_of_nil (quiet_throwIf (f := f) _).silent hnil fun _ _ => ?_
        refine pick_bind ?_ fun children _ => ?_
        · rw [(decodes_readInternalChildren pgno h).expanded]
          exact hone
        · rw [(decodes_readInternalChildren pgno h).expanded]
          exact (ih _ _ _).cons hvisited
      · refine pick_bind_of_nil (quiet_throwIf (f := f) _).silent hnil fun _ _ => ?_
        refine pick_bind ?_ fun pairs _ => ?_
        · rw [(decodes_leafPairs hps pgno h).expanded]
          exact hone
        · rw [(decodes_leafPairs hps pgno h).expanded]
          have hinsert := (quiet_insertAll (f := f) records pairs).silent
          exact pick_bind_of_nil (S := fun l => Walked visited ((pgno, expectedLevel) :: stack) ([pgno] ++ l))
            hinsert hone fun _ _ => (ih _ _ _).cons hvisited
      · exact hnil

/-- Each round visits one page more, so there are no more rounds than pages, and one. -/
theorem bounded_walk {fuel : Nat} {visited : List Nat} (walked : List Nat) (stack : List (Nat × Int))
    (records : RecordMap) (hnodup : walked.Nodup) (hin : ∀ p ∈ walked, p < f.numPages)
    (hvisited : ∀ p ∈ walked, p ∈ visited) (hfuel : f.numPages < walked.length + fuel) :
    Bounded f (walk f fuel visited stack records) := by
  induction fuel generalizing visited walked stack records with
  | zero =>
    have hle := BDBFile.length_le_numPages hnodup hin
    exact absurd hfuel (Nat.not_lt.2 hle)
  | succ fuel ih =>
    match stack with
    | [] => exact safe_pure _
    | (pgno, expectedLevel) :: stack =>
      rw [walk]
      refine (quiet_throwIf _).bounded.bind fun _ hfresh => ?_
      rw [throwIf_returns] at hfresh
      refine (quiet_readHeader pgno).bounded.bind fun h hh => ?_
      rcases (BDBFile.readHeader_returns hps).1 hh with ⟨hpgno, -, -⟩
      refine (quiet_throwIf _).bounded.bind fun _ _ => ?_
      have hnext : ∀ stack records, Bounded f (walk f fuel (pgno :: visited) stack records) := by
        intro stack records
        apply ih (pgno :: walked) stack records
        · exact List.nodup_cons.2 ⟨fun hmem => hfresh (hvisited pgno hmem), hnodup⟩
        · exact List.forall_mem_cons.2 ⟨hpgno, hin⟩
        · exact fun p hp => (List.mem_cons.1 hp).elim (fun h => h ▸ List.mem_cons_self)
            fun h => List.mem_cons_of_mem _ (hvisited p h)
        · rw [List.length_cons, Nat.add_assoc, Nat.add_comm 1]
          exact hfuel
      split_ifs
      · refine (quiet_throwIf _).bounded.bind fun _ _ => ?_
        exact (decodes_readInternalChildren pgno h).bounded.bind fun _ _ => hnext _ _
      · refine (quiet_throwIf _).bounded.bind fun _ _ => ?_
        refine (decodes_leafPairs hps pgno h).bounded.bind fun _ _ => ?_
        exact (quiet_insertAll _ _).bounded.bind fun _ _ => hnext _ _
      · exact (quiet_thrown _).bounded

omit hps in
/-- The counter does not wrap around below the last page. -/
theorem quiet_checkLsns {last fuel i : Nat} (hlast : last + 1 < 2 ^ 32) (hi : i ≤ last + 1)
    (hfuel : last + 1 < i + fuel) : Quiet f (checkLsns f last fuel i) := by
  induction fuel generalizing i with
  | zero => exact absurd hfuel (Nat.not_lt.2 hi)
  | succ fuel ih =>
    rw [checkLsns]
    split_ifs with hle
    · refine (quiet_pageOffset i).bind fun base _ => ?_
      refine (quiet_get rfl _ _).bind fun _ _ => ?_
      refine (quiet_throwIf _).bind fun _ _ => ?_
      refine (quiet_get rfl _ _).bind fun _ _ => ?_
      refine (quiet_throwIf _).bind fun _ _ => ?_
      have hnext : i + 1 < 2 ^ 32 := Nat.lt_of_le_of_lt (Nat.add_le_add_right hle 1) hlast
      rw [Nat.mod_eq_of_lt hnext]
      exact ih (Nat.add_le_add_right hle 1) (by omega)
    · exact safe_pure _

end

/-! ## The whole file -/

/-- The file that `ReadAll` makes of its bytes, before it has checked anything about them. -/
def opened (buf : Bytes) : BDBFile :=
  let otherEndian := decide (ByteCodec.leNat ((buf.drop 12).take 4) ≠ btreeMagic)
  ⟨buf, otherEndian, ({ buf, otherEndian, pagesize := 0 } : BDBFile).num 20 4⟩

theorem openFile_opened {buf : Bytes} {g : BDBFile} {outer : Meta}
    (h : (openFile buf).Returns (g, outer)) : g = opened buf := by
  simp only [openFile, bind_returns, throwIf_returns, emit_returns, BDBFile.get32, BDBFile.get_returns,
    Guard.exists_unit, true_and, and_assoc, exists_eq_left, pure_returns] at h
  rcases h with ⟨-, -, -, -, outer', -, heq⟩
  exact (Prod.mk.inj heq).1.symm

theorem quiet_openFile (buf : Bytes) : Quiet (opened buf) (openFile buf) := by
  refine (quiet_throwIf _).bind fun _ hsize => ?_
  rw [throwIf_returns, not_lt] at hsize
  have hmagic : (Access.read 12 16).Inside (opened buf) := ⟨by decide, le_trans (by decide) hsize⟩
  refine Safe.bind (safe_emit ⟨hmagic, rfl⟩) fun _ _ => ?_
  refine (quiet_throwIf _).bind fun _ _ => ?_
  refine (quiet_get rfl _ _).bind fun pagesize hpagesize => ?_
  rcases BDBFile.get_returns.1 hpagesize with ⟨rfl, -⟩
  refine (quiet_throwIf _).bind fun _ _ => ?_
  have hmeta : Quiet (opened buf) ((opened buf).readMeta 0) := quiet_readMeta 0
  exact hmeta.bind fun _ _ => safe_pure _

section

variable {f : BDBFile} (hps : 512 ≤ f.pagesize)
include hps

/-- At most one page is decoded. -/
structure MayDecode (f : BDBFile) (pgno : Nat) {α : Type} (x : ReadM α) : Prop where
  bounded : Bounded f x
  expanded : x.pick Access.expanded = [] ∨ x.pick Access.expanded = [pgno]

omit hps in
theorem MayDecode.after {α β : Type} {pgno : Nat} {x : ReadM α} {g : α → ReadM β} (hx : Quiet f x)
    (hg : ∀ a, MayDecode f pgno (g a)) : MayDecode f pgno (x >>= g) := by
  refine ⟨hx.bounded.bind fun a _ => (hg a).bounded, ?_⟩
  exact pick_bind_of_nil (S := fun l => l = [] ∨ l = [pgno]) hx.silent (Or.inl rfl)
    fun a _ => (hg a).expanded

omit hps in
theorem Decodes.before {α β : Type} {pgno : Nat} {x : ReadM α} {g : α → ReadM β}
    (hx : Decodes f pgno x) (hg : ∀ a, Quiet f (g a)) : MayDecode f pgno (x >>= g) := by
  refine ⟨hx.bounded.bind fun a _ => (hg a).bounded, Or.inr ?_⟩
  refine pick_bind (S := fun l => l = [pgno]) hx.expanded fun a _ => ?_
  rw [hx.expanded, (hg a).silent, List.append_nil]

theorem mayDecode_findMainSubdb (outer : Meta) : MayDecode f outer.root (findMainSubdb f outer) := by
  refine .after (quiet_readHeader _) fun h => ?_
  refine .after (quiet_throwIf _) fun _ => ?_
  refine .after (quiet_throwIf _) fun _ => ?_
  refine (decodes_leafPairs hps _ h).before fun pairs => ?_
  split
  · refine (quiet_throwIf _).bind fun _ _ => ?_
    refine (quiet_throwIf _).bind fun _ _ => ?_
    exact safe_pure _
  · exact quiet_thrown _

end

/-- What a run decodes: the root of the outer database, then no page twice; the root of the outer database
only once more, when the walk starts there. -/
structure Decoded (outerRoot : Nat) (pgnos : List Nat) : Prop where
  split : ∃ first walked, pgnos = first ++ walked ∧ (first = [] ∨ first = [outerRoot]) ∧ walked.Nodup ∧
    ∀ p ∈ first, p ∈ walked → walked.head? = some p

theorem decoded_first {outerRoot : Nat} {first : List Nat} (h : first = [] ∨ first = [outerRoot]) :
    Decoded outerRoot first :=
  ⟨first, [], (List.append_nil first).symm, h, List.nodup_nil, fun _ _ hp => absurd hp List.not_mem_nil⟩

theorem decoded_walk {f : BDBFile} (hps : 512 ≤ f.pagesize) (outer inner : Meta) (mainPgno fuel : Nat)
    {first : List Nat} (hfirst : first = [] ∨ first = [outer.root]) :
    Decoded outer.root (first ++ (walk f fuel (outerPages outer inner mainPgno)
      [(inner.root, -1)] []).pick Access.expanded) := by
  have hwalk := walked_walk hps fuel (outerPages outer inner mainPgno) [(inner.root, -1)] []
  generalize (walk f fuel (outerPages outer inner mainPgno) [(inner.root, -1)] []).pick
    Access.expanded = walked at hwalk ⊢
  refine ⟨first, walked, rfl, hfirst, hwalk.nodup, ?_⟩
  intro p hp hmem
  have houter : p = outer.root := by
    rcases hfirst with rfl | rfl
    · exact absurd hp List.not_mem_nil
    · exact List.mem_singleton.1 hp
  -- The root of the outer database has been visited, unless it is the root of "main" as well.
  have hinner : p = inner.root := by
    by_contra hne
    apply hwalk.fresh p hmem
    rw [outerPages, if_pos (houter ▸ hne), houter]
    exact List.mem_cons_self
  cases walked with
  | nil => exact absurd hmem List.not_mem_nil
  | cons q walked =>
    have htop : inner.root = q := Option.some.inj (hwalk.first q rfl)
    rw [hinner, htop]
    rfl

/-- **On any bytes**: the run stays in the buffer and ends, and decodes no page twice but the root of the
outer database when it is the root of "main" as well. -/
theorem readAll_bounded (buf : Bytes) :
    Bounded (opened buf) (readAll buf) ∧
      Decoded ((opened buf).metaAt 0).root ((readAll buf).pick Access.expanded) := by
  have hnone : Decoded ((opened buf).metaAt 0).root [] := decoded_first (Or.inl rfl)
  have hopen := quiet_openFile buf
  -- Everything that is opened has a page of at least 512 bytes, and not too many of them.
  have hof : ∀ g outer, (openFile buf).Returns (g, outer) →
      g = opened buf ∧ outer = (opened buf).metaAt 0 ∧ 512 ≤ (opened buf).pagesize ∧
        0 < (opened buf).numPages := by
    intro g outer h
    obtain rfl := openFile_opened h
    rcases openFile_sound h with ⟨-, -, hps, ⟨_, _, _, -, hmeta⟩, houter⟩
    exact ⟨rfl, houter, hps.1, hmeta.inFile⟩
  have hlsns : 0 < (opened buf).numPages → ∀ last, ¬ last ≠ ((opened buf).numPages + (2 ^ 32 - 1)) % 2 ^ 32 →
      Quiet (opened buf) (checkLsns (opened buf) last (last + 2) 0) := by
    intro hpos last hlast
    have hlt := numPages_lt (opened buf)
    rw [not_not, lastPgno_eq hpos] at hlast
    apply quiet_checkLsns
    · omega
    · exact Nat.zero_le _
    · omega
  constructor
  · refine hopen.bounded.bind fun o ho => ?_
    rcases o with ⟨g, outer⟩
    rcases hof g outer ho with ⟨rfl, rfl, hps, hpos⟩
    refine (quiet_throwIf _).bounded.bind fun _ hlast => ?_
    refine (quiet_throwIf _).bounded.bind fun _ _ => ?_
    refine (hlsns hpos _ (throwIf_returns.1 hlast)).bounded.bind fun _ _ => ?_
    refine (mayDecode_findMainSubdb hps _).bounded.bind fun mainPgno _ => ?_
    refine (quiet_throwIf _).bounded.bind fun _ _ => ?_
    refine (quiet_readMeta mainPgno).bounded.bind fun inner _ => ?_
    apply bounded_walk hps [] _ _ List.nodup_nil
    · exact fun _ hp => absurd hp List.not_mem_nil
    · exact fun _ hp => absurd hp List.not_mem_nil
    · simp
  · refine pick_bind_of_nil hopen.silent hnone fun o ho => ?_
    rcases o with ⟨g, outer⟩
    rcases hof g outer ho with ⟨rfl, rfl, hps, hpos⟩
    refine pick_bind_of_nil (quiet_throwIf (f := opened buf) _).silent hnone fun _ hlast => ?_
    refine pick_bind_of_nil (quiet_throwIf (f := opened buf) _).silent hnone fun _ _ => ?_
    refine pick_bind_of_nil (hlsns hpos _ (throwIf_returns.1 hlast)).silent hnone fun _ _ => ?_
    have hfind := (mayDecode_findMainSubdb hps ((opened buf).metaAt 0)).expanded
    refine pick_bind (decoded_first hfind) fun mainPgno _ => ?_
    generalize (findMainSubdb (opened buf) ((opened buf).metaAt 0)).pick Access.expanded = first at hfind ⊢
    have hfirst : Decoded ((opened buf).metaAt 0).root (first ++ []) :=
      (List.append_nil first).symm ▸ decoded_first hfind
    let S := fun pgnos => Decoded ((opened buf).metaAt 0).root (first ++ pgnos)
    refine pick_bind_of_nil (S := S) (quiet_throwIf (f := opened buf) _).silent hfirst fun _ _ => ?_
    refine pick_bind_of_nil (S := S) (quiet_readMeta mainPgno).silent hfirst fun inner _ => ?_
    exact decoded_walk hps _ inner mainPgno _ hfind

end

end BerkeleyRO

end Dobbscoin
