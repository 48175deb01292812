import Mathlib.Data.List.Infix
import Mathlib.Tactic.Common

/-
  Texts as bytes.  A text is read back from its bytes, bytes
  that begin with those of a text belong to one that begins
  with it, and a line ends at the first byte of a newline.

  Main declarations:
    * `Utf8.encode`, `Utf8.decode`
    * `Utf8.prefix_of_encode`
    * `Utf8.newline_mem_encode_iff`
    * `Utf8.length_of_newline`, `Utf8.take_prefix_line`
-/

------------------------------------------------------------
-- Bytes
------------------------------------------------------------

namespace Utf8

/- The bytes of a text. -/
def encode (cs : List Char) : List UInt8 :=
  cs.flatMap String.utf8EncodeChar

/- The text that bytes are, if they are one. -/
def decode (bs : List UInt8) : Option (List Char) :=
  bs.toByteArray.utf8Decode?.map Array.toList

variable {cs ds : List Char} {bs r : List UInt8}

/- The bytes of a character, and then the rest. -/
theorem encode_cons (c : Char) (cs : List Char) :
    encode (c :: cs) = String.utf8EncodeChar c ++ encode cs :=
  List.flatMap_cons

/- Texts are encoded one after the other. -/
theorem encode_append (cs ds : List Char) :
    encode (cs ++ ds) = encode cs ++ encode ds :=
  List.flatMap_append

/- No character is without bytes. -/
theorem encode_eq_nil_iff : encode cs = [] ↔ cs = [] := by
  cases cs with
  | nil => simp [encode]
  | cons c cs => simp [encode_cons]

/- These are the bytes that a string has. -/
theorem toByteArray_encode (cs : List Char) :
    (encode cs).toByteArray = cs.utf8Encode := by
  rw [List.utf8Encode, encode]

/- What was encoded is read back. -/
theorem decode_encode (cs : List Char) :
    decode (encode cs) = some cs := by
  rw [decode, toByteArray_encode,
    List.utf8Decode?_utf8Encode]
  rfl

/- Bytes that are a text are the bytes of that text. -/
theorem encode_of_decode
    (h : decode bs = some cs) :
    encode cs = bs := by
  rcases Option.map_eq_some_iff.mp h with ⟨a, ha, rfl⟩
  have hSome : bs.toByteArray.utf8Decode?.isSome = true := by
    rw [ha]
    rfl
  have hBack :=
    ByteArray.utf8Encode_get_utf8Decode? (h := hSome)
  simp only [ha, Option.get_some] at hBack
  rw [← toByteArray_encode] at hBack
  have hList := congrArg (fun b => b.data.toList) hBack
  simpa using hList

------------------------------------------------------------
-- Beginnings
------------------------------------------------------------

/- The first character is read from the first bytes. -/
private theorem head_eq
    {c d : Char} {r r' : List UInt8}
    (h :
      String.utf8EncodeChar c ++ r =
        String.utf8EncodeChar d ++ r') :
    c = d := by
  have hRead :
      ∀ (c : Char) (r : List UInt8),
        (String.utf8EncodeChar c ++ r).toByteArray.utf8DecodeChar?
          0 = some c := by
    intro c r
    rw [List.toByteArray_append]
    exact ByteArray.utf8DecodeChar?_utf8EncodeChar_append
  have hBoth := hRead c r
  rw [h, hRead d r'] at hBoth
  exact (Option.some.inj hBoth).symm

/- A text whose bytes begin another one begins it too. -/
theorem prefix_of_encode
    (h : encode cs ++ r = encode ds) :
    cs <+: ds := by
  induction cs generalizing ds with
  | nil => exact List.nil_prefix
  | cons c cs ih =>
      cases ds with
      | nil =>
          rw [encode_cons] at h
          simp [encode] at h
      | cons d ds =>
          rw [encode_cons, encode_cons, List.append_assoc] at h
          obtain rfl := head_eq h
          have hRest := List.append_cancel_left h
          exact (List.cons_prefix_cons).mpr ⟨rfl, ih hRest⟩

------------------------------------------------------------
-- Lines
------------------------------------------------------------

def newline : UInt8 := 10

/- A line ends in the one byte of its newline. -/
theorem encode_newline : encode ['\n'] = [newline] := by
  decide

/- A byte is its number below 256. -/
private theorem newline_eq_ofNat
    {n : Nat}
    (hByte : n < 256)
    (h : newline = UInt8.ofNat n) :
    n = 10 := by
  have hNat := congrArg UInt8.toNat h
  rw [UInt8.toNat_ofNat_of_lt' hByte] at hNat
  exact hNat.symm

/- Only the newline has its byte. -/
private theorem eq_newline_of_mem
    {c : Char}
    (h : newline ∈ String.utf8EncodeChar c) :
    c = '\n' := by
  have hHigh :
      ∀ n, 128 ≤ n → n < 256 → newline ≠ UInt8.ofNat n := by
    intro n hLow hByte hEq
    have hTen := newline_eq_ofNat hByte hEq
    omega
  revert h
  fun_cases String.utf8EncodeChar c with
  | case1 v hOne =>
      intro h
      have hTen :=
        newline_eq_ofNat (by omega) (List.mem_singleton.mp h)
      exact Char.ext (UInt32.toNat_inj.mp hTen)
  | _ =>
      intro h
      simp only [List.mem_cons, List.not_mem_nil, or_false]
        at h
      have hNone : False := by
        grind
      exact hNone.elim

/- The byte of the newline is in no other character. -/
theorem newline_mem_encode_iff :
    newline ∈ encode cs ↔ '\n' ∈ cs := by
  rw [encode, List.mem_flatMap]
  constructor
  · rintro ⟨c, hc, hByte⟩
    rw [← eq_newline_of_mem hByte]
    exact hc
  · intro h
    exact ⟨'\n', h, by decide⟩

/- The byte at the end of a line is the first newline. -/
private theorem getElem?_line
    {ls : List UInt8}
    (hPrefix : bs <+: ls ++ newline :: r)
    (hLt : ls.length < bs.length) :
    bs[ls.length]? = some newline := by
  rw [List.getElem?_eq_getElem hLt, hPrefix.getElem hLt]
  simp

/- The first newline in a line and more is its end. -/
theorem length_of_newline
    {ls : List UInt8} {n : Nat}
    (hPrefix : bs <+: ls ++ newline :: r)
    (hLine : newline ∉ ls)
    (hByte : bs[n]? = some newline)
    (hFirst : newline ∉ bs.take n) :
    n = ls.length := by
  rcases List.getElem?_eq_some_iff.mp hByte with ⟨hLt, hEq⟩
  rcases Nat.lt_trichotomy n ls.length with hLow | hSame | hHigh
  · have hGet := hPrefix.getElem hLt
    rw [List.getElem_append_left hLow, hEq] at hGet
    exact absurd (hGet ▸ List.getElem_mem hLow) hLine
  · exact hSame
  · have hEnd := getElem?_line hPrefix (by omega)
    have hMem : newline ∈ bs.take n :=
      List.mem_iff_getElem?.mpr ⟨ls.length, by
        rw [List.getElem?_take_of_lt hHigh, hEnd]⟩
    exact absurd hMem hFirst

/- What has been read without a newline is from the line. -/
theorem take_prefix_line
    {ls : List UInt8} {n : Nat}
    (hPrefix : bs <+: ls ++ newline :: r)
    (hNone : newline ∉ bs.take n) :
    bs.take n <+: ls := by
  have hTaken : bs.take n <+: ls ++ newline :: r :=
    (List.take_prefix n bs).trans hPrefix
  rcases Nat.lt_or_ge ls.length (bs.take n).length with hLong | hLe
  · have hEnd := getElem?_line hTaken hLong
    exact absurd (List.mem_of_getElem? hEnd) hNone
  · exact List.prefix_of_prefix_length_le hTaken
      (List.prefix_append ls _) hLe

end Utf8
