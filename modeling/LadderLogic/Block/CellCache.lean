import LadderLogic.Block

/-!
Cells that are materialised once and then remembered. Copies of a block share one cache, so a cell
keeps the form it had for whichever copy was asked first.
-/

set_option autoImplicit false

namespace LadderLogic

/-- The remembered cells of a block and its copies, by address. -/
abbrev CellCache := Std.ExtTreeMap Int Tag

namespace CellCache

/-- The remembered cell of an address, or a fresh one that is remembered from now on. -/
def fetch (cache : CellCache) (b : Block) (address : Int) : Tag × CellCache :=
  match cache[address]? with
  | some tag => (tag, cache)
  | none => (b.cell address, cache.insert address (b.cell address))

def fetchAll (cache : CellCache) (b : Block) : List Int → List Tag × CellCache
  | [] => ([], cache)
  | a :: as =>
    let (tag, cache) := cache.fetch b a
    let (tags, cache) := cache.fetchAll b as
    (tag :: tags, cache)

/-- The tag of a literal address. Addresses that do not exist leave the cache alone. -/
def get (cache : CellCache) (b : Block) (address : Int) : Except LadderError Tag × CellCache :=
  if b.contains address then
    let (tag, cache) := cache.fetch b address
    (.ok tag, cache)
  else (.error (.addressOutOfBlock b.name address), cache)

/-- The tag that a computed pointer leads to. One that leads nowhere leaves the cache alone. -/
def resolve (cache : CellCache) (b : Block) (pointer : Option Int) : Option Tag × CellCache :=
  match pointer.bind b.resolvePointer with
  | some address =>
    let (tag, cache) := cache.fetch b address
    (some tag, cache)
  | none => (none, cache)

def tags (cache : CellCache) (r : BlockRange) : List Tag × CellCache :=
  cache.fetchAll r.block r.addresses

/-- Every remembered cell is the one the block would materialise now. -/
def Agrees (cache : CellCache) (b : Block) : Prop :=
  ∀ (address : Int) (tag : Tag), cache[address]? = some tag → tag = b.cell address

end CellCache

end LadderLogic
