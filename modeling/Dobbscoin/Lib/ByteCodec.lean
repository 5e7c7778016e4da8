import Mathlib.Data.List.Basic
import Mathlib.Tactic.Ring

/-!
# ByteCodec — self-delimiting byte formats

A `ByteCodec α` is a writer and a reader of byte strings together with the two laws that make
them a format:

- `get_put`: what the writer wrote is read back, and the bytes behind it are left alone;
- `put_get`: whatever the reader accepts is exactly what the writer would have written.

The second law is what makes a format *canonical*: a value has one encoding only.  Formats are
built from fixed-width little-endian numbers by `iso`, `pair` and `vec`, and the laws come along.
-/

abbrev Bytes := List UInt8

instance : LawfulBEq Bytes := inferInstance

namespace ByteCodec

/-! ## Little-endian numbers -/

/-- The `w` low bytes of `n`, least significant byte first. -/
def leBytes : Nat → Nat → Bytes
  | 0, _ => []
  | w + 1, n => UInt8.ofNat (n % 256) :: leBytes w (n / 256)

/-- The number whose little-endian bytes are given. -/
def leNat : Bytes → Nat
  | [] => 0
  | b :: bs => b.toNat + 256 * leNat bs

@[simp] theorem leBytes_length (w n : Nat) : (leBytes w n).length = w := by
  induction w generalizing n with
  | zero => rfl
  | succ w ih => simp [leBytes, ih]

theorem leNat_leBytes (w n : Nat) : leNat (leBytes w n) = n % 256 ^ w := by
  induction w generalizing n with
  | zero => simp [leBytes, leNat, Nat.mod_one]
  | succ w ih =>
      have hbyte : (UInt8.ofNat (n % 256)).toNat = n % 256 := by
        simp [UInt8.toNat_ofNat']
      calc
        leNat (leBytes (w + 1) n)
            = n % 256 + 256 * (n / 256 % 256 ^ w) := by
              simp [leBytes, leNat, ih, hbyte]
        _ = n % (256 * 256 ^ w) := (Nat.mod_mul).symm
        _ = n % 256 ^ (w + 1) := by rw [Nat.pow_succ, Nat.mul_comm]

theorem leBytes_leNat (bs : Bytes) : leBytes bs.length (leNat bs) = bs := by
  induction bs with
  | nil => rfl
  | cons b bs ih =>
      have hb : b.toNat < 256 := b.toNat_lt
      have hmod : (b.toNat + 256 * leNat bs) % 256 = b.toNat := by omega
      have hdiv : (b.toNat + 256 * leNat bs) / 256 = leNat bs := by omega
      simp [leBytes, leNat, hmod, hdiv, ih]

theorem leNat_lt (bs : Bytes) : leNat bs < 256 ^ bs.length := by
  induction bs with
  | nil => simp [leNat]
  | cons b bs ih =>
      have hb : b.toNat < 256 := b.toNat_lt
      simp only [leNat, List.length_cons, Nat.pow_succ]
      omega

theorem leBytes_inj {w m n : Nat} (hm : m < 256 ^ w) (hn : n < 256 ^ w)
    (h : leBytes w m = leBytes w n) : m = n := by
  have hval : leNat (leBytes w m) = leNat (leBytes w n) := by rw [h]
  simpa [leNat_leBytes, Nat.mod_eq_of_lt hm, Nat.mod_eq_of_lt hn] using hval

end ByteCodec

/-! ## Formats -/

/-- A byte format for the values that satisfy `Fits`. -/
structure ByteCodec (α : Type) where
  put : α → Bytes
  get : Bytes → Option (α × Bytes)
  Fits : α → Prop
  get_put : ∀ {a : α}, Fits a → ∀ rest : Bytes, get (put a ++ rest) = some (a, rest)
  put_get : ∀ {bs : Bytes} {a : α} {rest : Bytes},
    get bs = some (a, rest) → Fits a ∧ bs = put a ++ rest

namespace ByteCodec

variable {α β : Type}

/-- No encoding of a fitting value is a prefix of the encoding of another one. -/
theorem put_append_inj (c : ByteCodec α) {a b : α} (ha : c.Fits a) (hb : c.Fits b)
    {r s : Bytes} (h : c.put a ++ r = c.put b ++ s) : a = b ∧ r = s := by
  have hget : some (a, r) = some (b, s) := by
    rw [← c.get_put ha r, ← c.get_put hb s, h]
  simpa using hget

theorem put_inj (c : ByteCodec α) {a b : α} (ha : c.Fits a) (hb : c.Fits b)
    (h : c.put a = c.put b) : a = b := by
  have happ : c.put a ++ [] = c.put b ++ [] := by rw [h]
  exact (c.put_append_inj ha hb happ).1

theorem get_put_nil (c : ByteCodec α) {a : α} (ha : c.Fits a) :
    c.get (c.put a) = some (a, []) := by
  simpa using c.get_put ha []

/-- Numbers below `256 ^ w`, in `w` little-endian bytes. -/
def le (w : Nat) : ByteCodec Nat where
  put n := leBytes w n
  get bs := if w ≤ bs.length then some (leNat (bs.take w), bs.drop w) else none
  Fits n := n < 256 ^ w
  get_put := by
    intro n hn rest
    have htake : (leBytes w n ++ rest).take w = leBytes w n :=
      List.take_left' (leBytes_length w n)
    have hdrop : (leBytes w n ++ rest).drop w = rest :=
      List.drop_left' (leBytes_length w n)
    simp [htake, hdrop, leNat_leBytes, Nat.mod_eq_of_lt hn]
  put_get := by
    intro bs n rest h
    split at h
    · rename_i hlen
      have htake : (bs.take w).length = w := by simp [hlen]
      have hpair : leNat (bs.take w) = n ∧ bs.drop w = rest := by simpa using h
      rcases hpair with ⟨rfl, rfl⟩
      refine ⟨?_, ?_⟩
      · simpa [htake] using leNat_lt (bs.take w)
      · have hbytes := leBytes_leNat (bs.take w)
        rw [htake] at hbytes
        rw [hbytes, List.take_append_drop]
    · cases h

/-- Numbers below `256 ^ w`, in `w` big-endian bytes. -/
def be (w : Nat) : ByteCodec Nat where
  put n := (leBytes w n).reverse
  get bs := if w ≤ bs.length then some (leNat (bs.take w).reverse, bs.drop w) else none
  Fits n := n < 256 ^ w
  get_put := by
    intro n hn rest
    have hlength : (leBytes w n).reverse.length = w := by simp
    have htake : ((leBytes w n).reverse ++ rest).take w = (leBytes w n).reverse :=
      List.take_left' hlength
    have hdrop : ((leBytes w n).reverse ++ rest).drop w = rest :=
      List.drop_left' hlength
    simp [htake, hdrop, leNat_leBytes, Nat.mod_eq_of_lt hn]
  put_get := by
    intro bs n rest h
    split at h
    · rename_i hlen
      have htake : (bs.take w).reverse.length = w := by simp [hlen]
      have hpair : leNat (bs.take w).reverse = n ∧ bs.drop w = rest := by simpa using h
      rcases hpair with ⟨rfl, rfl⟩
      refine ⟨?_, ?_⟩
      · simpa [htake] using leNat_lt (bs.take w).reverse
      · have hbytes := leBytes_leNat (bs.take w).reverse
        rw [htake] at hbytes
        rw [hbytes, List.reverse_reverse, List.take_append_drop]
    · cases h

/-- Integers in the `w` little-endian bytes of their two's complement. -/
def twos (w : Nat) : ByteCodec Int where
  put n := leBytes w (n % 256 ^ w).toNat
  get bs := ((le w).get bs).map fun p => (if 2 * p.1 < 256 ^ w then (p.1 : Int) else p.1 - 256 ^ w, p.2)
  Fits n := -256 ^ w ≤ 2 * n ∧ 2 * n < 256 ^ w
  get_put := by
    rintro n ⟨hlow, hhigh⟩ rest
    have hpos : (0 : Int) < 256 ^ w := Int.pow_pos (by decide)
    have hnonneg : 0 ≤ n % 256 ^ w := Int.emod_nonneg n hpos.ne'
    rcases Int.eq_ofNat_of_zero_le hnonneg with ⟨m, hm⟩
    have hlt : (m : Int) < 256 ^ w := by
      rw [← hm]
      exact Int.emod_lt_of_pos n hpos
    have hread : (le w).get (leBytes w m ++ rest) = some (m, rest) :=
      (le w).get_put (show m < 256 ^ w by exact_mod_cast hlt) rest
    rw [hm, Int.toNat_natCast, hread, Option.map_some]
    rcases le_or_gt 0 n with hn | hn
    · have hmod : (m : Int) = n := by rw [← hm, Int.emod_eq_of_lt hn (by omega)]
      have hhalf : 2 * m < 256 ^ w := by
        rw [← hmod] at hhigh
        exact_mod_cast hhigh
      rw [if_pos hhalf, hmod]
    · have hmod : (m : Int) = n + 256 ^ w := by
        rw [← hm, ← Int.add_emod_right, Int.emod_eq_of_lt (by omega) (by omega)]
      have hhalf : ¬2 * m < 256 ^ w := by
        intro hhalf
        have hhalf' : 2 * (m : Int) < 256 ^ w := by exact_mod_cast hhalf
        omega
      rw [if_neg hhalf, hmod, Int.add_sub_cancel]
  put_get := by
    intro bs n rest h
    rcases Option.map_eq_some_iff.1 h with ⟨⟨m, r⟩, hget, hpair⟩
    cases hpair
    rcases (le w).put_get hget with ⟨hfits, hbs⟩
    have hlt : (m : Int) < 256 ^ w := by exact_mod_cast (show m < 256 ^ w from hfits)
    have hmod : ((if 2 * m < 256 ^ w then (m : Int) else m - 256 ^ w) % 256 ^ w).toNat = m := by
      split_ifs
      · rw [Int.emod_eq_of_lt (Int.natCast_nonneg m) hlt, Int.toNat_natCast]
      · rw [Int.sub_emod_right, Int.emod_eq_of_lt (Int.natCast_nonneg m) hlt, Int.toNat_natCast]
    refine ⟨?_, ?_⟩
    · dsimp only
      split_ifs with hhalf
      · have hhalf' : 2 * (m : Int) < 256 ^ w := by exact_mod_cast hhalf
        exact ⟨by omega, hhalf'⟩
      · have hhalf' : (256 : Int) ^ w ≤ 2 * (m : Int) := by exact_mod_cast not_lt.1 hhalf
        exact ⟨by omega, by omega⟩
    · dsimp only
      rw [hmod]
      exact hbs

/-- Blocks of `n` bytes, as they are. -/
def block (n : Nat) : ByteCodec Bytes where
  put bytes := bytes
  get bs := if n ≤ bs.length then some (bs.take n, bs.drop n) else none
  Fits bytes := bytes.length = n
  get_put := by
    rintro bytes rfl rest
    simp
  put_get := by
    intro bs bytes rest h
    split at h
    · rename_i hlen
      cases h
      exact ⟨List.length_take_of_le hlen, (List.take_append_drop n bs).symm⟩
    · cases h

/-- Transport a format along a map that is invertible on the values that fit. -/
def iso (c : ByteCodec α) (toFun : α → β) (invFun : β → α)
    (hleft : ∀ b : β, toFun (invFun b) = b)
    (hright : ∀ a : α, c.Fits a → invFun (toFun a) = a) : ByteCodec β where
  put b := c.put (invFun b)
  get bs := (c.get bs).map (fun p => (toFun p.1, p.2))
  Fits b := c.Fits (invFun b)
  get_put := by
    intro b hb rest
    simp [c.get_put hb rest, hleft]
  put_get := by
    intro bs b rest h
    rcases Option.map_eq_some_iff.1 h with ⟨⟨a, r⟩, hget, hpair⟩
    cases hpair
    rcases c.put_get hget with ⟨hfits, hbs⟩
    simpa [hright a hfits] using And.intro hfits hbs

def pair (c : ByteCodec α) (d : ByteCodec β) : ByteCodec (α × β) where
  put p := c.put p.1 ++ d.put p.2
  get bs := (c.get bs).bind fun p => (d.get p.2).map fun q => ((p.1, q.1), q.2)
  Fits p := c.Fits p.1 ∧ d.Fits p.2
  get_put := by
    rintro ⟨a, b⟩ ⟨ha, hb⟩ rest
    simp [List.append_assoc, c.get_put ha, d.get_put hb]
  put_get := by
    intro bs p rest h
    rcases Option.bind_eq_some_iff.1 h with ⟨⟨a, r⟩, hc, hrest⟩
    rcases Option.map_eq_some_iff.1 hrest with ⟨⟨b, s⟩, hd, hpair⟩
    cases hpair
    rcases c.put_get hc with ⟨ha, rfl⟩
    rcases d.put_get hd with ⟨hb, rfl⟩
    exact ⟨⟨ha, hb⟩, by simp [List.append_assoc]⟩

/-- A value, and behind it a second one exactly when the first one says so. -/
def trailer (c : ByteCodec α) (flag : α → Bool) (d : ByteCodec β) : ByteCodec (α × Option β) where
  put p := c.put p.1 ++
    match flag p.1, p.2 with
    | true, some b => d.put b
    | _, _ => []
  get bs := (c.get bs).bind fun p =>
    if flag p.1 then (d.get p.2).map fun q => ((p.1, some q.1), q.2)
    else some ((p.1, none), p.2)
  Fits p := c.Fits p.1 ∧ p.2.isSome = flag p.1 ∧ ∀ b, p.2 = some b → d.Fits b
  get_put := by
    rintro ⟨a, o⟩ ⟨ha, hflag, hb⟩ rest
    cases o with
    | none =>
        have hf : flag a = false := hflag.symm
        simp [hf, c.get_put ha]
    | some b =>
        have hf : flag a = true := hflag.symm
        simp [hf, List.append_assoc, c.get_put ha, d.get_put (hb b rfl)]
  put_get := by
    intro bs p rest h
    rcases Option.bind_eq_some_iff.1 h with ⟨⟨a, r⟩, hc, hrest⟩
    rcases c.put_get hc with ⟨ha, rfl⟩
    cases hf : flag a with
    | false =>
        have hpair : ((a, none), r) = (p, rest) := by simpa [hf] using hrest
        cases hpair
        exact ⟨⟨ha, hf.symm, by simp⟩, by simp [hf]⟩
    | true =>
        have hd : (d.get r).map (fun q => ((a, some q.1), q.2)) = some (p, rest) := by
          simpa [hf] using hrest
        rcases Option.map_eq_some_iff.1 hd with ⟨⟨b, s⟩, hget, hpair⟩
        cases hpair
        rcases d.put_get hget with ⟨hb, rfl⟩
        refine ⟨⟨ha, hf.symm, ?_⟩, by simp [hf, List.append_assoc]⟩
        intro b' hb'
        cases hb'
        exact hb

/-! ## Counted vectors -/

def putAll (c : ByteCodec α) : List α → Bytes
  | [] => []
  | a :: as => c.put a ++ putAll c as

/-- An element is no longer than the whole. -/
theorem length_put_le (c : ByteCodec α) {as : List α} {a : α} (ha : a ∈ as) :
    (c.put a).length ≤ (putAll c as).length := by
  induction as with
  | nil => cases ha
  | cons b bs ih =>
      rw [putAll, List.length_append]
      rcases List.mem_cons.1 ha with rfl | hmem
      · exact Nat.le_add_right _ _
      · exact (ih hmem).trans (Nat.le_add_left _ _)

/-- Elements that take `k` bytes each. -/
theorem mul_length_le_putAll (c : ByteCodec α) {as : List α} {k : Nat} (hk : ∀ a ∈ as, k ≤ (c.put a).length) :
    as.length * k ≤ (putAll c as).length := by
  induction as with
  | nil => simp
  | cons b bs ih =>
      have hb := hk b (by simp)
      have hbs := ih fun a ha => hk a (by simp [ha])
      rw [putAll, List.length_append, List.length_cons, Nat.succ_mul]
      omega

theorem length_le_putAll (c : ByteCodec α) {as : List α} (hpos : ∀ a ∈ as, 0 < (c.put a).length) :
    as.length ≤ (putAll c as).length :=
  (Nat.mul_one _).ge.trans (c.mul_length_le_putAll hpos)

def getN (c : ByteCodec α) : Nat → Bytes → Option (List α × Bytes)
  | 0, bs => some ([], bs)
  | n + 1, bs =>
      (c.get bs).bind fun p => (getN c n p.2).map fun q => (p.1 :: q.1, q.2)

theorem getN_putAll (c : ByteCodec α) (as : List α) (hfits : ∀ a ∈ as, c.Fits a) (rest : Bytes) :
    getN c as.length (putAll c as ++ rest) = some (as, rest) := by
  induction as with
  | nil => rfl
  | cons a as ih =>
      have ha : c.Fits a := hfits a (by simp)
      have htail : getN c as.length (putAll c as ++ rest) = some (as, rest) :=
        ih fun b hb => hfits b (by simp [hb])
      simp [getN, putAll, List.append_assoc, c.get_put ha, htail]

theorem putAll_getN (c : ByteCodec α) :
    ∀ {n : Nat} {bs : Bytes} {as : List α} {rest : Bytes},
      getN c n bs = some (as, rest) →
        as.length = n ∧ (∀ a ∈ as, c.Fits a) ∧ bs = putAll c as ++ rest
  | 0, bs, as, rest, h => by
      have hpair : [] = as ∧ bs = rest := by simpa [getN] using h
      rcases hpair with ⟨rfl, rfl⟩
      simp [putAll]
  | n + 1, bs, as, rest, h => by
      rcases Option.bind_eq_some_iff.1 h with ⟨⟨a, r⟩, hc, hrest⟩
      rcases Option.map_eq_some_iff.1 hrest with ⟨⟨as', s⟩, hn, hpair⟩
      cases hpair
      rcases c.put_get hc with ⟨ha, rfl⟩
      rcases putAll_getN c hn with ⟨hlen, hall, hr⟩
      refine ⟨by simp [hlen], ?_, ?_⟩
      · intro b hb
        rcases List.mem_cons.1 hb with rfl | hb
        · exact ha
        · exact hall b hb
      · have hr' : r = putAll c as' ++ s := hr
        rw [hr', putAll, List.append_assoc]

/-- A vector: the element count in the format `count`, then the elements. -/
def vec (count : ByteCodec Nat) (c : ByteCodec α) : ByteCodec (List α) where
  put as := count.put as.length ++ putAll c as
  get bs := (count.get bs).bind fun p => getN c p.1 p.2
  Fits as := count.Fits as.length ∧ ∀ a ∈ as, c.Fits a
  get_put := by
    rintro as ⟨hlen, hall⟩ rest
    simp [List.append_assoc, count.get_put hlen, getN_putAll c as hall]
  put_get := by
    intro bs as rest h
    rcases Option.bind_eq_some_iff.1 h with ⟨⟨n, r⟩, hcount, hn⟩
    rcases count.put_get hcount with ⟨hfits, rfl⟩
    rcases putAll_getN c hn with ⟨rfl, hall, hr⟩
    have hr' : r = putAll c as ++ rest := hr
    exact ⟨⟨hfits, hall⟩, by rw [hr', List.append_assoc]⟩

def byte : ByteCodec UInt8 where
  put b := [b]
  get
    | [] => none
    | b :: rest => some (b, rest)
  Fits _ := True
  get_put := by
    intro b _ rest
    rfl
  put_get := by
    intro bs b rest h
    cases bs with
    | nil => cases h
    | cons b' bs' =>
        cases h
        exact ⟨trivial, rfl⟩

end ByteCodec

/-!
# Format — writers and readers

A reader may accept more than its writer writes, and a writer may have values that are not read back.  What holds of a
single value is `RoundTrips`.
-/

structure Format (α : Type) where
  put : α → Bytes
  get : Bytes → Option (α × Bytes)

namespace Format

open ByteCodec

variable {α β : Type} {f : Format α} {a b : α}

/-- The value is read back, and what follows is left alone. -/
def RoundTrips (f : Format α) (a : α) : Prop :=
  ∀ rest : Bytes, f.get (f.put a ++ rest) = some (a, rest)

/-! ## Counted vectors -/

def putAll (f : Format α) (as : List α) : Bytes :=
  as.flatMap f.put

def getN (f : Format α) : Nat → Bytes → Option (List α × Bytes)
  | 0, bs => some ([], bs)
  | n + 1, bs => do
    let (a, bs) ← f.get bs
    let (as, bs) ← getN f n bs
    return (a :: as, bs)

theorem getN_putAll {as : List α} (h : ∀ a ∈ as, f.RoundTrips a) (rest : Bytes) :
    f.getN as.length (f.putAll as ++ rest) = some (as, rest) := by
  induction as with
  | nil => rfl
  | cons a as ih =>
    have ha := h a List.mem_cons_self (f.putAll as ++ rest)
    have has := ih fun b hb => h b (List.mem_cons_of_mem a hb)
    have hsplit : f.putAll (a :: as) ++ rest = f.put a ++ (f.putAll as ++ rest) := by
      rw [putAll, List.flatMap_cons, List.append_assoc]
      rfl
    rw [List.length_cons, getN, hsplit, ha, Option.bind_eq_bind, Option.bind_some]
    dsimp only
    rw [has]
    rfl

/-- A vector: the number of elements in the format `count`, then the elements. -/
def vec (count : ByteCodec Nat) (f : Format α) : Format (List α) where
  put as := count.put as.length ++ f.putAll as
  get bs := (count.get bs).bind fun p => f.getN p.1 p.2

theorem vec_roundTrips {count : ByteCodec Nat} {as : List α} (hlength : count.Fits as.length)
    (h : ∀ a ∈ as, f.RoundTrips a) : (vec count f).RoundTrips as := by
  intro rest
  have hread := getN_putAll h rest
  dsimp only [vec]
  rw [List.append_assoc, count.get_put hlength, Option.bind_some, hread]

/-- The values are a view of others. -/
def iso (f : Format α) (toFun : α → β) (invFun : β → α) : Format β where
  put b := f.put (invFun b)
  get bs := (f.get bs).map fun p => (toFun p.1, p.2)

theorem RoundTrips.iso {toFun : α → β} {invFun : β → α} {b : β} (h : f.RoundTrips (invFun b))
    (hback : toFun (invFun b) = b) : (f.iso toFun invFun).RoundTrips b := by
  intro rest
  have hread := h rest
  dsimp only [Format.iso]
  rw [hread, Option.map_some, hback]

end Format
