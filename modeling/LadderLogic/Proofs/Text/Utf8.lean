import Mathlib
import LadderLogic.Text.Utf8

/-!
Text in bytes and back. The four widths of a character differ in the leading bits of the first
byte; for each of them the bytes that follow are those that the first byte announces. Main result:
the bytes of a text are read as that text.
-/

set_option autoImplicit false

namespace LadderLogic.Text

theorem byteArray_toList_loop (bytes : ByteArray) (i : Nat) (before : List UInt8) :
    ByteArray.toList.loop bytes i before = before.reverse ++ bytes.data.toList.drop i := by
  fun_induction ByteArray.toList.loop bytes i before with
  | case1 i before hi ih =>
    have hlt : i < bytes.data.toList.length := by simpa using hi
    rw [ih, List.drop_eq_getElem_cons hlt]
    simp [ByteArray.get!, hi]
  | case2 i before hi =>
    rw [List.drop_eq_nil_of_le (by simpa using Nat.le_of_not_lt hi)]
    simp

theorem toList_toByteArray (bytes : List UInt8) : bytes.toByteArray.toList = bytes := by
  unfold ByteArray.toList
  rw [byteArray_toList_loop]
  simp

theorem isContinuation_iff {b : UInt8} :
    isContinuation b = true ↔ 0x80 ≤ b.toNat ∧ b.toNat < 0xc0 := by
  simp only [isContinuation, Bool.and_eq_true, decide_eq_true_eq, UInt8.le_iff_toNat_le,
    UInt8.lt_iff_toNat_lt]
  rfl

theorem mem_followRange {lead b : UInt8} (hb : isContinuation b = true)
    (hthree : lead.toNat = 0xe0 → 0xa0 ≤ b.toNat) (hsurrogate : lead.toNat = 0xed → b.toNat < 0xa0)
    (hfour : lead.toNat = 0xf0 → 0x90 ≤ b.toNat) (hlast : lead.toNat = 0xf4 → b.toNat < 0x90) :
    (followRange lead).1 ≤ b ∧ b ≤ (followRange lead).2 := by
  have hb := isContinuation_iff.mp hb
  have hlead : ∀ n : UInt8, lead = n ↔ lead.toNat = n.toNat := fun n => UInt8.toNat_inj.symm
  unfold followRange
  simp only [hlead]
  split_ifs <;> simp only [UInt8.le_iff_toNat_le] <;> simp_all <;> omega

theorem following_cons {lead b : UInt8} {bs : List UInt8} (hwidth : 2 ≤ widthOf lead)
    (hb : (followRange lead).1 ≤ b ∧ b ≤ (followRange lead).2) :
    following lead (b :: bs) = b :: continuations (widthOf lead - 2) bs := by
  simp [following, hwidth, hb]

/-- A character whose bytes are all there is read, and what follows goes on from there. -/
theorem decode_cons {lead : UInt8} (tail : List UInt8) {bs : List UInt8} {n : Nat}
    (hwidth : widthOf lead = tail.length + 1) (htail : following lead (tail ++ bs) = tail)
    (hcode : codePoint lead tail = n) :
    decode (lead :: (tail ++ bs)) = some (Char.ofNat n) :: decode bs := by
  rw [decode.eq_def]
  simp only [htail, hwidth, hcode, if_pos, List.drop_left]

theorem widthOf_eq (lead : UInt8) : widthOf lead =
    if lead.toNat < 0x80 then 1
    else if 0xc2 ≤ lead.toNat ∧ lead.toNat < 0xe0 then 2
    else if 0xe0 ≤ lead.toNat ∧ lead.toNat < 0xf0 then 3
    else if 0xf0 ≤ lead.toNat ∧ lead.toNat < 0xf5 then 4
    else 0 := by
  simp only [widthOf, Bool.and_eq_true, decide_eq_true_eq, UInt8.le_iff_toNat_le,
    UInt8.lt_iff_toNat_lt]
  rfl

section
variable {n : Nat} (bs : List UInt8)

theorem toNat_byte (hn : n < 256) : (UInt8.ofNat n).toNat = n := UInt8.toNat_ofNat_of_lt' hn

theorem isContinuation_byte (n : Nat) : isContinuation (UInt8.ofNat (n % 64 + 128)) = true := by
  rw [isContinuation_iff, toNat_byte (by omega)]
  omega

theorem continuations_cons {b : UInt8} (hb : isContinuation b = true) (k : Nat) :
    continuations (k + 1) (b :: bs) = b :: continuations k bs := by
  simp [continuations, hb]

@[simp] theorem continuations_zero : continuations 0 bs = [] := by
  cases bs <;> rfl

theorem decode_one (hn : n < 0x80) :
    decode (UInt8.ofNat n :: bs) = some (Char.ofNat n) :: decode bs := by
  have hlead := toNat_byte (show n < 256 by omega)
  have hwidth : widthOf (UInt8.ofNat n) = 1 := by
    rw [widthOf_eq, hlead, if_pos hn]
  apply decode_cons []
  · exact hwidth
  · cases bs <;> simp [following, hwidth]
  · exact hlead

theorem decode_two (hlow : 0x80 ≤ n) (hhigh : n < 0x800) :
    decode (UInt8.ofNat (n / 64 % 32 + 192) :: UInt8.ofNat (n % 64 + 128) :: bs) =
      some (Char.ofNat n) :: decode bs := by
  have hlead := toNat_byte (show n / 64 % 32 + 192 < 256 by omega)
  have hsecond := toNat_byte (show n % 64 + 128 < 256 by omega)
  have hwidth : widthOf (UInt8.ofNat (n / 64 % 32 + 192)) = 2 := by
    rw [widthOf_eq, hlead, if_neg (by omega), if_pos (by omega)]
  apply decode_cons [_]
  · exact hwidth
  · rw [List.cons_append, List.nil_append, following_cons (by omega), hwidth, continuations_zero]
    apply mem_followRange (isContinuation_byte n) <;> omega
  · simp only [codePoint, List.length_singleton, List.foldl_cons, List.foldl_nil, hlead, hsecond]
    omega

theorem decode_three (hlow : 0x800 ≤ n) (hhigh : n < 0x10000)
    (hvalid : n < 0xd800 ∨ 0xdfff < n) :
    decode (UInt8.ofNat (n / 4096 % 16 + 224) :: UInt8.ofNat (n / 64 % 64 + 128) ::
      UInt8.ofNat (n % 64 + 128) :: bs) = some (Char.ofNat n) :: decode bs := by
  have hlead := toNat_byte (show n / 4096 % 16 + 224 < 256 by omega)
  have hsecond := toNat_byte (show n / 64 % 64 + 128 < 256 by omega)
  have hthird := toNat_byte (show n % 64 + 128 < 256 by omega)
  have hwidth : widthOf (UInt8.ofNat (n / 4096 % 16 + 224)) = 3 := by
    rw [widthOf_eq, hlead, if_neg (by omega), if_neg (by omega), if_pos (by omega)]
  apply decode_cons [_, _]
  · exact hwidth
  · rw [List.cons_append, List.cons_append, List.nil_append, following_cons (by omega), hwidth,
      continuations_cons _ (isContinuation_byte n), continuations_zero]
    apply mem_followRange (isContinuation_byte (n / 64)) <;> omega
  · simp only [codePoint, List.length_cons, List.length_nil, List.foldl_cons, List.foldl_nil, hlead,
      hsecond, hthird]
    omega

theorem decode_four (hlow : 0x10000 ≤ n) (hhigh : n < 0x110000) :
    decode (UInt8.ofNat (n / 262144 % 8 + 240) :: UInt8.ofNat (n / 4096 % 64 + 128) ::
      UInt8.ofNat (n / 64 % 64 + 128) :: UInt8.ofNat (n % 64 + 128) :: bs) =
      some (Char.ofNat n) :: decode bs := by
  have hlead := toNat_byte (show n / 262144 % 8 + 240 < 256 by omega)
  have hsecond := toNat_byte (show n / 4096 % 64 + 128 < 256 by omega)
  have hthird := toNat_byte (show n / 64 % 64 + 128 < 256 by omega)
  have hfourth := toNat_byte (show n % 64 + 128 < 256 by omega)
  have hwidth : widthOf (UInt8.ofNat (n / 262144 % 8 + 240)) = 4 := by
    rw [widthOf_eq, hlead, if_neg (by omega), if_neg (by omega), if_neg (by omega),
      if_pos (by omega)]
  apply decode_cons [_, _, _]
  · exact hwidth
  · rw [List.cons_append, List.cons_append, List.cons_append, List.nil_append,
      following_cons (by omega), hwidth, continuations_cons _ (isContinuation_byte (n / 64)),
      continuations_cons _ (isContinuation_byte n), continuations_zero]
    apply mem_followRange (isContinuation_byte (n / 4096)) <;> omega
  · simp only [codePoint, List.length_cons, List.length_nil, List.foldl_cons, List.foldl_nil, hlead,
      hsecond, hthird, hfourth]
    omega

end

theorem decode_utf8EncodeChar (c : Char) (bs : List UInt8) :
    decode (String.utf8EncodeChar c ++ bs) = some c :: decode bs := by
  have hvalid : c.toNat < 0xd800 ∨ 0xdfff < c.toNat ∧ c.toNat < 0x110000 := c.valid
  have hchar := Char.ofNat_toNat c
  rw [String.utf8EncodeChar.eq_1, show c.val.toNat = c.toNat from rfl]
  split_ifs with hone htwo hthree
  · have hdecode := decode_one bs (n := c.toNat) (by omega)
    rwa [hchar] at hdecode
  · have hdecode := decode_two bs (n := c.toNat) (by omega) (by omega)
    rwa [hchar] at hdecode
  · have hdecode := decode_three bs (n := c.toNat) (by omega) (by omega) (by omega)
    rwa [hchar] at hdecode
  · have hdecode := decode_four bs (n := c.toNat) (by omega) (by omega)
    rwa [hchar] at hdecode

theorem decode_utf8Encode (cs : List Char) : decode (cs.flatMap String.utf8EncodeChar) =
    cs.map some := by
  induction cs with
  | nil => rw [List.flatMap_nil, decode.eq_def]; rfl
  | cons c cs ih => rw [List.flatMap_cons, decode_utf8EncodeChar, ih, List.map_cons]

theorem mapM_id_some (cs : List Char) : (cs.map some).mapM id = some cs := by
  induction cs with
  | nil => rfl
  | cons c cs ih => rw [List.map_cons, List.mapM_cons, ih]; rfl

/-- The bytes of a text are read as that text. -/
theorem ofBytes?_toUTF8 (s : String) : ofBytes? s.toUTF8 = some s := by
  have hbytes : s.toUTF8.toList = s.toList.flatMap String.utf8EncodeChar := by
    have hchars : s.toUTF8 = s.toList.utf8Encode := by
      rw [← String.toByteArray_ofList, String.ofList_toList]
      rfl
    rw [hchars]
    exact toList_toByteArray _
  unfold ofBytes?
  rw [hbytes, decode_utf8Encode, mapM_id_some, Option.map_some, String.ofList_toList]

end LadderLogic.Text
