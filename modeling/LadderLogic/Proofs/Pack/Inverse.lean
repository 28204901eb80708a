import LadderLogic.Proofs.Block.Names
import LadderLogic.Proofs.Pack.Patterns
import LadderLogic.Proofs.Scan.Lookup

/-!
Packing and unpacking undo each other, for bits and for words, in both directions. What a REAL
loses on the way is the precision beyond single, and bits that are no REAL raise a fault.
-/

set_option autoImplicit false

namespace LadderLogic

theorem ScanContext.read_raise_of_ne (ctx : ScanContext) {t : Tag} {f : Fault}
    (h : t.name ≠ f.tagName) : (ctx.raise f).read t = ctx.read t := by
  unfold read getTag raise
  rw [tag?_setTag, if_neg h]
  rfl

namespace Pack

/-- A range and the reference to a number lead to these cells and this tag now. -/
structure Links (range : RangeRef) (ref : TagRef) (ctx : ScanContext) (cells : BlockRange)
    (number : Tag) : Prop where
  made : range.Made
  cells_eq : range.resolve ctx = .ok (some cells)
  number_eq : ref.resolve ctx = some number

variable {range : RangeRef} {ref : TagRef} {ctx mid : ScanContext} {cells : BlockRange}
  {number : Tag}

theorem Links.onPair_eq (h : Links range ref ctx cells number)
    (next : BlockRange → Tag → ScanContext) :
    onPair range ref ctx next = (next cells number).proceed :=
  onPair_of_resolve h.cells_eq h.number_eq next

theorem Links.nodup (h : Links range ref ctx cells number) : (cells.tags.map Tag.name).Nodup :=
  RangeRef.nodup_names_of_resolve h.made h.cells_eq

/-! What the four instructions do once the operands are known. -/

theorem packBits_eq (h : Links range ref ctx cells number)
    (hlength : cells.length ≤ number.type.width) :
    PackBits.execute ⟨range, ref⟩ ctx =
      (writePattern ctx number (ofBits (cells.tags.map ctx.readBool))).proceed := by
  unfold PackBits.execute
  rw [h.onPair_eq, if_neg (Nat.not_lt.mpr hlength)]

theorem packWords_eq (h : Links range ref ctx cells number) {low high : Tag}
    (htags : cells.tags = [low, high]) :
    PackWords.execute ⟨range, ref⟩ ctx =
      (writePattern ctx number (readWord ctx low + 65536 * readWord ctx high)).proceed := by
  unfold PackWords.execute
  rw [h.onPair_eq, htags]

theorem unpackToBits_eq (h : Links range ref ctx cells number)
    (hlength : cells.length ≤ number.type.width) {bits : Nat}
    (hbits : number.type.patternOf (ctx.read number) = some bits) :
    UnpackToBits.execute ⟨ref, range⟩ ctx =
      (ctx.writeAll (cells.tags.zip ((toBits cells.length bits).map Value.bool))).proceed := by
  unfold UnpackToBits.execute
  rw [h.onPair_eq, if_neg (Nat.not_lt.mpr hlength)]
  simp only [hbits]

theorem unpackToWords_eq (h : Links range ref ctx cells number) {low high : Tag}
    (htags : cells.tags = [low, high]) {bits : Nat}
    (hbits : number.type.patternOf (ctx.read number) = some bits) :
    UnpackToWords.execute ⟨ref, range⟩ ctx =
      (writePattern (writePattern ctx low (bits % 65536)) high (bits / 65536)).proceed := by
  unfold UnpackToWords.execute
  rw [h.onPair_eq, htags]
  simp only [hbits]

theorem writePattern_of_valueOf {t : Tag} {bits : Nat} {v : Value}
    (h : t.type.valueOf bits = some v) : writePattern ctx t bits = ctx.write t v := by
  unfold writePattern
  rw [h]

theorem writePattern_of_not_isPattern {t : Tag} {bits : Nat} (h : ¬t.type.IsPattern bits) :
    writePattern ctx t bits = ctx.raise .outOfRange := by
  unfold writePattern
  rw [TagType.valueOf_of_not_isPattern h]

theorem readWord_of_patternOf {t : Tag} {bits : Nat}
    (h : t.type.patternOf (ctx.read t) = some bits) (hbits : bits < 65536) :
    readWord ctx t = bits := by
  unfold readWord
  rw [h]
  exact Nat.mod_eq_of_lt hbits

/-- Two cells of the type of the range. -/
theorem exists_pair (h : cells.length = 2) :
    ∃ low high, cells.tags = [low, high] ∧ low.type = cells.type ∧ high.type = cells.type := by
  obtain ⟨i, j, hij⟩ := List.length_eq_two.mp h
  exact ⟨cells.block.cell i, cells.block.cell j, congrArg (List.map cells.block.cell) hij, rfl, rfl⟩

/-! What the number gives in bits and in words, and what they give as a number. -/

/-- Unpacked into any row of cells, the number gives the bits, and false behind them. -/
def GivesBits (number : Tag) (mid : ScanContext) (bits : List Bool) : Prop :=
  ∀ {back : RangeRef} {again : TagRef} {row : BlockRange}, Links back again mid row number →
    row.length ≤ number.type.width →
    ∃ last : ScanContext, UnpackToBits.execute ⟨again, back⟩ mid = last.proceed ∧
      ∀ j < row.length, (row.tags.map last.readBool)[j]? = some true ↔ bits[j]? = some true

/-- Unpacked into any two cells of the type, the number gives the values. -/
def GivesWords (number : Tag) (mid : ScanContext) (cell : TagType) (values : List Value) : Prop :=
  ∀ {back : RangeRef} {again : TagRef} {row : BlockRange}, Links back again mid row number →
    row.length = 2 → row.type = cell →
    ∃ last : ScanContext, UnpackToWords.execute ⟨again, back⟩ mid = last.proceed ∧
      row.tags.map last.read = values

/-- Packed as bits into any tag of the type, the cells give the value. -/
def BitsGive (cells : BlockRange) (mid : ScanContext) (type : TagType) (v : Value) : Prop :=
  ∀ {back : RangeRef} {again : TagRef} {target : Tag}, Links back again mid cells target →
    target.type = type → PackBits.execute ⟨back, again⟩ mid = (mid.write target v).proceed

/-- Packed as words into any tag of the type, the cells give the value. -/
def WordsGive (cells : BlockRange) (mid : ScanContext) (type : TagType) (v : Value) : Prop :=
  ∀ {back : RangeRef} {again : TagRef} {target : Tag}, Links back again mid cells target →
    target.type = type → PackWords.execute ⟨back, again⟩ mid = (mid.write target v).proceed

/-- The number that the words of two cells make, the low one first. -/
def wordsOf (ctx : ScanContext) : List Tag → Nat
  | [low, high] => readWord ctx low + 65536 * readWord ctx high
  | _ => 0

theorem givesBits_of_patternOf {bits : List Bool}
    (h : number.type.patternOf (mid.read number) = some (ofBits bits)) :
    GivesBits number mid bits := by
  intro back again row hlinks hlength
  refine ⟨_, unpackToBits_eq hlinks hlength h, ?_⟩
  intro j hj
  rw [mid.readBool_writeAll_zip hlinks.nodup (by rw [length_toBits, BlockRange.length_tags]),
    toBits_eq, List.getElem?_map, List.getElem?_range hj, ← testBit_ofBits, Option.map_some,
    Option.some.injEq]

theorem bitsGive_of_valueOf {t : TagType} {n : Nat} {v : Value} (hlength : cells.length = t.width)
    (hlt : n < 2 ^ t.width) (hbits : cells.tags.map mid.readBool = toBits cells.length n)
    (hvalue : t.valueOf n = some v) : BitsGive cells mid t v := by
  intro back again target hlinks htype
  subst htype
  rw [packBits_eq hlinks hlength.le, hbits, hlength, ofBits_toBits hlt,
    writePattern_of_valueOf hvalue]

theorem givesWords_of_patternOf {t : TagType} {n : Nat} {v w : Value}
    (h : number.type.patternOf (mid.read number) = some n) (hlow : t.valueOf (n % 65536) = some v)
    (hhigh : t.valueOf (n / 65536) = some w) : GivesWords number mid t [v, w] := by
  intro back again row hlinks hlength htype
  obtain ⟨low, high, htags, hlowType, hhighType⟩ := exists_pair hlength
  have hnames : ([low, high].map Tag.name).Nodup := htags ▸ hlinks.nodup
  rw [← htype] at hlow hhigh
  refine ⟨_, unpackToWords_eq hlinks htags h, ?_⟩
  rw [writePattern_of_valueOf (hhighType ▸ hhigh), writePattern_of_valueOf (hlowType ▸ hlow), htags]
  have hvalues : [v, w].length = [low, high].length := rfl
  exact mid.read_writeAll_zip hnames hvalues

theorem wordsGive_of_valueOf {t : TagType} {n : Nat} {v : Value} (hlength : cells.length = 2)
    (hwords : wordsOf mid cells.tags = n) (hvalue : t.valueOf n = some v) :
    WordsGive cells mid t v := by
  intro back again target hlinks htype
  obtain ⟨low, high, htags, -, -⟩ := exists_pair hlength
  rw [htags] at hwords
  subst htype
  rw [packWords_eq hlinks htags, writePattern_of_valueOf (hwords ▸ hvalue)]

/-- Two words that lie in their domains make a number, and its halves are the words. -/
theorem wordsOf_eq (htype : cells.type ∈ TagType.narrow) (hlength : cells.length = 2)
    (hholds : ∀ t ∈ cells.tags, cells.type.Holds (ctx.read t)) :
    ∃ v w, cells.tags.map ctx.read = [v, w] ∧ wordsOf ctx cells.tags < 2 ^ 32 ∧
      cells.type.valueOf (wordsOf ctx cells.tags % 65536) = some v ∧
      cells.type.valueOf (wordsOf ctx cells.tags / 65536) = some w := by
  have hpackable := TagType.packable_of_narrow htype
  obtain ⟨low, high, htags, hlow, hhigh⟩ := exists_pair hlength
  rw [htags] at hholds ⊢
  have hlowHolds := hholds low List.mem_cons_self
  have hhighHolds := hholds high (List.mem_cons_of_mem _ List.mem_cons_self)
  obtain ⟨i, hi, hilt, hiback⟩ := TagType.patternOf_holds hpackable hlowHolds
  obtain ⟨j, hj, hjlt, hjback⟩ := TagType.patternOf_holds hpackable hhighHolds
  rw [TagType.rounded_of_narrow htype] at hiback hjback
  rw [TagType.width_of_narrow htype] at hilt hjlt
  have hiword : readWord ctx low = i := readWord_of_patternOf (hlow ▸ hi) hilt
  have hjword : readWord ctx high = j := readWord_of_patternOf (hhigh ▸ hj) hjlt
  have hlowHalf : (i + 65536 * j) % 65536 = i := by omega
  have hhighHalf : (i + 65536 * j) / 65536 = j := by omega
  refine ⟨_, _, rfl, ?_⟩
  rw [wordsOf, hiword, hjword, hlowHalf, hhighHalf]
  exact ⟨by omega, hiback hlowHolds, hjback hhighHolds⟩

/-- Cells that have been given the halves of a number make that number. -/
theorem wordsOf_writePattern (htype : cells.type ∈ TagType.narrow) {low high : Tag}
    (htags : cells.tags = [low, high]) (hlow : low.type = cells.type)
    (hhigh : high.type = cells.type) (hnames : (cells.tags.map Tag.name).Nodup) {n : Nat}
    (hn : n < 2 ^ 32) :
    wordsOf (writePattern (writePattern ctx low (n % 65536)) high (n / 65536)) cells.tags = n := by
  have hpackable := TagType.packable_of_narrow htype
  have hne : high.name ≠ low.name := by
    rw [htags] at hnames
    exact fun heq => (List.nodup_cons.mp hnames).1 (List.mem_singleton.mpr heq.symm)
  have hvalue (half : Nat) (hhalf : half < 65536) :
      ∃ v, cells.type.valueOf half = some v ∧ cells.type.patternOf v = some half :=
    TagType.valueOf_pattern hpackable (TagType.width_of_narrow htype ▸ hhalf)
      (TagType.isPattern_of_narrow htype half)
  obtain ⟨v, hv, hvback⟩ := hvalue (n % 65536) (by omega)
  obtain ⟨w, hw, hwback⟩ := hvalue (n / 65536) (by omega)
  rw [writePattern_of_valueOf (hhigh ▸ hw), writePattern_of_valueOf (hlow ▸ hv), htags, wordsOf]
  have hlowWord : readWord ((ctx.write low v).write high w) low = n % 65536 := by
    refine readWord_of_patternOf ?_ (by omega)
    rw [ScanContext.read_write_of_ne hne, ScanContext.read_write_self, hlow, hvback]
  have hhighWord : readWord ((ctx.write low v).write high w) high = n / 65536 := by
    refine readWord_of_patternOf ?_ (by omega)
    rw [ScanContext.read_write_self, hhigh, hwback]
  rw [hlowWord, hhighWord]
  omega

/-! Each instruction followed by the one that undoes it. -/

theorem bits_of_packBits (h : Links range ref ctx cells number)
    (hnumber : number.type ∈ TagType.packable) (hlength : cells.length ≤ number.type.width)
    (hpattern : number.type.IsPattern (ofBits (cells.tags.map ctx.readBool))) :
    ∃ mid : ScanContext, PackBits.execute ⟨range, ref⟩ ctx = mid.proceed ∧
      GivesBits number mid (cells.tags.map ctx.readBool) := by
  have hlt : ofBits (cells.tags.map ctx.readBool) < 2 ^ number.type.width := by
    refine (ofBits_lt _).trans_le (Nat.pow_le_pow_right two_pos ?_)
    rwa [List.length_map, BlockRange.length_tags]
  obtain ⟨v, hvalue, hback⟩ := TagType.valueOf_pattern hnumber hlt hpattern
  refine ⟨ctx.write number v, ?_, givesBits_of_patternOf ?_⟩
  · rw [packBits_eq h hlength, writePattern_of_valueOf hvalue]
  · rw [ScanContext.read_write_self, hback]

theorem number_of_unpackToBits (h : Links range ref ctx cells number)
    (hnumber : number.type ∈ TagType.packable) (hlength : cells.length = number.type.width)
    (hholds : number.type.Holds (ctx.read number))
    (hrounded : number.type.Holds (number.type.rounded (ctx.read number))) :
    ∃ mid : ScanContext, UnpackToBits.execute ⟨ref, range⟩ ctx = mid.proceed ∧
      BitsGive cells mid number.type (number.type.rounded (ctx.read number)) := by
  obtain ⟨n, hn, hlt, hback⟩ := TagType.patternOf_holds hnumber hholds
  refine ⟨_, unpackToBits_eq h hlength.le hn, bitsGive_of_valueOf hlength hlt ?_ (hback hrounded)⟩
  exact ctx.readBool_writeAll_zip h.nodup (by rw [length_toBits, BlockRange.length_tags])

theorem words_of_packWords (h : Links range ref ctx cells number)
    (hnumber : number.type ∈ TagType.wide) (hcells : cells.type ∈ TagType.narrow)
    (hlength : cells.length = 2) (hholds : ∀ t ∈ cells.tags, cells.type.Holds (ctx.read t))
    (hpattern : number.type.IsPattern (wordsOf ctx cells.tags)) :
    ∃ mid : ScanContext, PackWords.execute ⟨range, ref⟩ ctx = mid.proceed ∧
      GivesWords number mid cells.type (cells.tags.map ctx.read) := by
  obtain ⟨v, w, hread, hlt, hlow, hhigh⟩ := wordsOf_eq hcells hlength hholds
  obtain ⟨low, high, htags, -, -⟩ := exists_pair hlength
  obtain ⟨x, hvalue, hback⟩ := TagType.valueOf_pattern (TagType.packable_of_wide hnumber)
    (TagType.width_of_wide hnumber ▸ hlt) hpattern
  refine ⟨ctx.write number x, ?_, ?_⟩
  · rw [htags] at hvalue
    rw [packWords_eq h htags, ← writePattern_of_valueOf hvalue, wordsOf]
  · rw [hread]
    refine givesWords_of_patternOf ?_ hlow hhigh
    rw [ScanContext.read_write_self, hback]

theorem number_of_unpackToWords (h : Links range ref ctx cells number)
    (hnumber : number.type ∈ TagType.wide) (hcells : cells.type ∈ TagType.narrow)
    (hlength : cells.length = 2) (hholds : number.type.Holds (ctx.read number))
    (hrounded : number.type.Holds (number.type.rounded (ctx.read number))) :
    ∃ mid : ScanContext, UnpackToWords.execute ⟨ref, range⟩ ctx = mid.proceed ∧
      WordsGive cells mid number.type (number.type.rounded (ctx.read number)) := by
  obtain ⟨n, hn, hlt, hback⟩ :=
    TagType.patternOf_holds (TagType.packable_of_wide hnumber) hholds
  rw [TagType.width_of_wide hnumber] at hlt
  obtain ⟨low, high, htags, hlow, hhigh⟩ := exists_pair hlength
  refine ⟨_, unpackToWords_eq h htags hn, wordsGive_of_valueOf hlength ?_ (hback hrounded)⟩
  exact wordsOf_writePattern hcells htags hlow hhigh h.nodup hlt

/-- Bits that are no number of the type raise the fault, and nothing else happens. -/
theorem refusal_of_packBits (h : Links range ref ctx cells number)
    (hlength : cells.length ≤ number.type.width)
    (hpattern : ¬number.type.IsPattern (ofBits (cells.tags.map ctx.readBool))) :
    PackBits.execute ⟨range, ref⟩ ctx = (ctx.raise .outOfRange).proceed := by
  rw [packBits_eq h hlength, writePattern_of_not_isPattern hpattern]

theorem refusal_of_packWords (h : Links range ref ctx cells number) (hlength : cells.length = 2)
    (hpattern : ¬number.type.IsPattern (wordsOf ctx cells.tags)) :
    PackWords.execute ⟨range, ref⟩ ctx = (ctx.raise .outOfRange).proceed := by
  obtain ⟨low, high, htags, -, -⟩ := exists_pair hlength
  rw [htags] at hpattern
  rw [packWords_eq h htags, ← wordsOf, writePattern_of_not_isPattern hpattern]

/-- Packed bits and packed words are had back from the number, and a number from the bits or words
that it is unpacked into, a REAL in single precision. Only bits that are no REAL are refused, and
then the target keeps its value unless it is the tag of the fault. -/
theorem mutually_inverse (h : Links range ref ctx cells number) :
    (number.type ∈ TagType.packable → cells.length ≤ number.type.width →
      number.type.IsPattern (ofBits (cells.tags.map ctx.readBool)) →
      ∃ mid : ScanContext, PackBits.execute ⟨range, ref⟩ ctx = mid.proceed ∧
        GivesBits number mid (cells.tags.map ctx.readBool)) ∧
    (number.type ∈ TagType.packable → cells.length = number.type.width →
      number.type.Holds (ctx.read number) →
      number.type.Holds (number.type.rounded (ctx.read number)) →
      ∃ mid : ScanContext, UnpackToBits.execute ⟨ref, range⟩ ctx = mid.proceed ∧
        BitsGive cells mid number.type (number.type.rounded (ctx.read number))) ∧
    (number.type ∈ TagType.wide → cells.type ∈ TagType.narrow → cells.length = 2 →
      (∀ t ∈ cells.tags, cells.type.Holds (ctx.read t)) →
      number.type.IsPattern (wordsOf ctx cells.tags) →
      ∃ mid : ScanContext, PackWords.execute ⟨range, ref⟩ ctx = mid.proceed ∧
        GivesWords number mid cells.type (cells.tags.map ctx.read)) ∧
    (number.type ∈ TagType.wide → cells.type ∈ TagType.narrow → cells.length = 2 →
      number.type.Holds (ctx.read number) →
      number.type.Holds (number.type.rounded (ctx.read number)) →
      ∃ mid : ScanContext, UnpackToWords.execute ⟨ref, range⟩ ctx = mid.proceed ∧
        WordsGive cells mid number.type (number.type.rounded (ctx.read number))) ∧
    (cells.length ≤ number.type.width →
      ¬number.type.IsPattern (ofBits (cells.tags.map ctx.readBool)) →
      PackBits.execute ⟨range, ref⟩ ctx = (ctx.raise .outOfRange).proceed) ∧
    (cells.length = 2 → ¬number.type.IsPattern (wordsOf ctx cells.tags) →
      PackWords.execute ⟨range, ref⟩ ctx = (ctx.raise .outOfRange).proceed) ∧
    (number.name ≠ Fault.outOfRange.tagName →
      (ctx.raise .outOfRange).read number = ctx.read number) :=
  ⟨bits_of_packBits h, number_of_unpackToBits h, words_of_packWords h, number_of_unpackToWords h,
    refusal_of_packBits h, refusal_of_packWords h, ctx.read_raise_of_ne⟩

end Pack

namespace Sample

/-- Three bits, which an INT takes up. -/
def bitRow : BlockRange := Block.all ⟨"C", .bool, 1, 3, none, none, false, .bool false⟩

/-- As many bits as a REAL has. -/
def bitsOfReal : BlockRange := Block.all ⟨"Y", .bool, 1, 32, none, none, false, .bool false⟩

def wordPair : BlockRange := Block.all ⟨"DH", .word, 1, 2, none, none, true, .int 0⟩

def parts : Tag := .ofType .int "Parts"

def total : Tag := .ofType .dint "Total"

def level : Tag := .ofType .real "Level"

/-- A REAL tag under the name of the fault. -/
def faultLevel : Tag := .ofType .real Fault.outOfRange.tagName

def loaded : ScanContext :=
  .start (.ofTags (.ofEntries [("C1", .bool true), ("C3", .bool true), ("DH1", .int 32768),
    ("DH2", .int 65535), ("Parts", .int 7), ("Total", .int (-65537))])) ∅

/-- The real is the double next to one tenth. -/
def tenth : ScanContext :=
  .start (.ofTags (.ofEntries [("Level", .real (Binary.ofWord 0x3fb999999999999a))])) ∅

/-- The words are those of an infinite real. -/
def infiniteWords : ScanContext :=
  .start (.ofTags (.ofEntries [("DH1", .int 0), ("DH2", .int 0x7f80),
    (Fault.outOfRange.tagName, .real (Binary.ofWord 0x4000000000000000))])) ∅

theorem links_all {b : Block} {number : Tag} {ctx : ScanContext} :
    Pack.Links (.direct b.all) (.direct number) ctx b.all number :=
  ⟨.all b, rfl, rfl⟩

end Sample

namespace Pack

theorem mutually_inverse_sample :
    Links (.direct Sample.bitRow) (.direct Sample.parts) Sample.loaded Sample.bitRow Sample.parts ∧
      Links (.direct Sample.wordPair) (.direct Sample.total) Sample.loaded Sample.wordPair
        Sample.total ∧
      (∃ mid : ScanContext,
        PackBits.execute ⟨.direct Sample.bitRow, .direct Sample.parts⟩ Sample.loaded =
          mid.proceed ∧ GivesBits Sample.parts mid [true, false, true]) ∧
      (∃ mid : ScanContext,
        PackWords.execute ⟨.direct Sample.wordPair, .direct Sample.total⟩ Sample.loaded =
          mid.proceed ∧ GivesWords Sample.total mid .word [.int 32768, .int 65535]) ∧
      (∃ mid : ScanContext,
        UnpackToWords.execute ⟨.direct Sample.total, .direct Sample.wordPair⟩ Sample.loaded =
          mid.proceed ∧ WordsGive Sample.wordPair mid .dint (.int (-65537))) := by
  have hbits : Links (.direct Sample.bitRow) (.direct Sample.parts) Sample.loaded Sample.bitRow
      Sample.parts := Sample.links_all
  have hwords : Links (.direct Sample.wordPair) (.direct Sample.total) Sample.loaded
      Sample.wordPair Sample.total := Sample.links_all
  obtain ⟨hpackBits, -⟩ := mutually_inverse hbits
  obtain ⟨-, -, hpackWords, hunpackWords, -⟩ := mutually_inverse hwords
  refine ⟨hbits, hwords, hpackBits (by decide) (by decide) trivial, ?_, ?_⟩
  · exact hpackWords (by decide) (by decide) (by decide) (by decide) trivial
  · exact hunpackWords (by decide) (by decide) (by decide) (by decide) (by decide)

/-- A REAL of double precision is not had back from its bits, and a refusal changes the target if
that has the name of the fault. -/
theorem exists_loss :
    (TagType.real.Holds (Sample.tenth.read Sample.level) ∧
      ∃ (mid : ScanContext) (v : Value),
        UnpackToBits.execute ⟨.direct Sample.level, .direct Sample.bitsOfReal⟩ Sample.tenth =
          mid.proceed ∧
        PackBits.execute ⟨.direct Sample.bitsOfReal, .direct Sample.level⟩ mid =
          (mid.write Sample.level v).proceed ∧ v ≠ Sample.tenth.read Sample.level) ∧
    (¬TagType.real.IsPattern (wordsOf Sample.infiniteWords Sample.wordPair.tags) ∧
      ∃ last : ScanContext,
        PackWords.execute ⟨.direct Sample.wordPair, .direct Sample.faultLevel⟩
          Sample.infiniteWords = last.proceed ∧
        last.read Sample.faultLevel ≠ Sample.infiniteWords.read Sample.faultLevel) := by
  have hholds : TagType.real.Holds (Sample.tenth.read Sample.level) := by decide +kernel
  have hinfinite : ¬TagType.real.IsPattern (wordsOf Sample.infiniteWords Sample.wordPair.tags) := by
    rintro ⟨negative, m, e, hfinite⟩
    have hdecode : Binary.single.decode (wordsOf Sample.infiniteWords Sample.wordPair.tags) =
        .infinite false := by decide
    cases hdecode.symm.trans hfinite
  have hlinks : Links (.direct Sample.bitsOfReal) (.direct Sample.level) Sample.tenth
      Sample.bitsOfReal Sample.level := Sample.links_all
  obtain ⟨mid, hunpack, hgive⟩ :=
    number_of_unpackToBits hlinks (by decide) (by decide) hholds (by decide +kernel)
  refine ⟨⟨hholds, mid, _, hunpack, hgive Sample.links_all rfl, by decide +kernel⟩, hinfinite,
    _, refusal_of_packWords Sample.links_all (by decide) hinfinite, by decide⟩

end Pack

end LadderLogic
