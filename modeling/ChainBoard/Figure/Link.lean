import ChainBoard.Board.Content
import ChainBoard.Decimal.Grouping

/-!
# Links to the pages of blocks and hashes

A block is named by its height, everything else by its hash. A height is shown in groups of three
digits and linked by its plain digits.

## Main definitions

* `Link.toBlock`: the link to the block at a height
* `Link.toHash`: the link to what a hash names
-/

namespace ChainBoard.Link

/-- The link to the block at a height: grouped digits shown, plain digits in the target. -/
def toBlock (height : Nat) : Content :=
  .link (String.ofList (Decimal.grouped height)) ("block.html?height=" ++ toString height)

/-- The link to what a hash names, which is shown and linked as it is. -/
def toHash (hash : String) : Content :=
  .link hash ("hash.html?hash=" ++ hash)

end ChainBoard.Link
