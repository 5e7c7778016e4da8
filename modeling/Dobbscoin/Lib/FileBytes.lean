import Dobbscoin.Lib.ByteCodec

/-!
# Files as byte strings

What writing at a place, cutting and growing do to the content of a file, and which part of it they keep.
-/

namespace FileBytes

open ByteCodec

variable {file file' file'' bs : Bytes} {n m off : Nat}

/-- `ftruncate`: the file has `n` bytes then. -/
def resize (file : Bytes) (n : Nat) : Bytes :=
  file.take n ++ List.replicate (n - file.length) 0

/-- `fallocate`: the file has `n` bytes at least. -/
def extend (file : Bytes) (n : Nat) : Bytes :=
  file ++ List.replicate (n - file.length) 0

/-- Write at an offset; a gap before it is filled with zeros. -/
def write (file : Bytes) (off : Nat) (bs : Bytes) : Bytes :=
  resize file off ++ (bs ++ file.drop (off + bs.length))

/-- The bytes stand at the offset. -/
def Holds (file : Bytes) (off : Nat) (bs : Bytes) : Prop :=
  bs <+: file.drop off

/-- The first `n` bytes are still there. -/
def Keeps (n : Nat) (file file' : Bytes) : Prop :=
  file.take n <+: file'

theorem length_resize (file : Bytes) (n : Nat) : (resize file n).length = n := by
  rw [resize, List.length_append, List.length_take, List.length_replicate]
  omega

/-! ## What is kept -/

theorem Keeps.refl (n : Nat) (file : Bytes) : Keeps n file file :=
  List.take_prefix n file

theorem Keeps.trans (h : Keeps n file file') (h' : Keeps n file' file'') : Keeps n file file'' := by
  refine List.IsPrefix.trans ?_ h'
  rw [List.prefix_take_iff]
  exact ⟨h, List.length_take_le n file⟩

theorem keeps_resize (h : n ≤ m) : Keeps n file (resize file m) :=
  (List.take_prefix_take_left h).trans (List.prefix_append _ _)

theorem keeps_extend : Keeps n file (extend file m) :=
  (List.take_prefix n file).trans (List.prefix_append _ _)

theorem keeps_write (h : n ≤ off) : Keeps n file (write file off bs) :=
  List.IsPrefix.trans (keeps_resize h) (List.prefix_append _ _)

/-! ## What stands in a file -/

theorem holds_write : Holds (write file off bs) off bs := by
  rw [Holds, write, List.drop_append_of_le_length (le_of_eq (length_resize file off).symm)]
  rw [List.drop_eq_nil_of_le (le_of_eq (length_resize file off)), List.nil_append]
  exact List.prefix_append _ _

theorem Holds.right {as : Bytes} (h : Holds file off (as ++ bs)) : Holds file (off + as.length) bs := by
  rcases h with ⟨rest, hrest⟩
  rw [Holds, ← List.drop_drop, ← hrest, List.append_assoc, List.drop_left]
  exact List.prefix_append _ _

/-- What stands in the part that is kept stays. -/
theorem Holds.keep (h : Holds file off bs) (hne : bs ≠ []) (hkeeps : Keeps n file file') (hend : off + bs.length ≤ n) :
    Holds file' off bs := by
  rcases h with ⟨rest, hrest⟩
  have hoff : off ≤ file.length := by
    by_contra hout
    rw [List.drop_eq_nil_of_le (by omega)] at hrest
    exact hne (List.append_eq_nil_iff.1 hrest).1
  have hsplit : file = file.take off ++ (bs ++ rest) := by rw [hrest, List.take_append_drop]
  have hlength : (file.take off).length = off := by
    rw [List.length_take]
    omega
  have hstart : file.take off ++ bs <+: file := by
    rw [← List.append_assoc] at hsplit
    exact ⟨rest, hsplit.symm⟩
  have hinside : file.take off ++ bs <+: file.take n := by
    rw [List.prefix_take_iff, List.length_append, hlength]
    exact ⟨hstart, hend⟩
  rcases hinside.trans hkeeps with ⟨rest', hrest'⟩
  rw [Holds, ← hrest', List.append_assoc, List.drop_append_of_le_length (le_of_eq hlength.symm),
    List.drop_eq_nil_of_le (le_of_eq hlength), List.nil_append]
  exact List.prefix_append _ _

end FileBytes
