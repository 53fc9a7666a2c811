/-!
# The contents of slots

A slot holds a text or a link. Links point to pages of the explorer's web site and are written
without its address; a board puts the address in front when it takes the link in.

## Main definitions

* `Content`: texts and links
* `Content.linkedTo`: a link with a base in front of its target
* `Content.render`: the content as it is shown
-/

namespace ChainBoard

/-- What a slot holds. -/
inductive Content where
  | text (text : String)
  | link (text target : String)
  deriving DecidableEq, Repr

namespace Content

/-- The base in front of a link's target; a text stays as it is. -/
def linkedTo (base : String) : Content → Content
  | text shown => text shown
  | link shown target => link shown (base ++ target)

/-- A text is shown as it is, a link with its target in angle brackets. -/
def render : Content → String
  | text shown => shown
  | link shown target => shown ++ " <" ++ target ++ ">"

end Content

end ChainBoard
