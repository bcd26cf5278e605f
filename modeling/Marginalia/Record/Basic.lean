import Marginalia.Level

/-!
Records: one paragraph of a comment, the place where it stands, and how it is classified.
-/

namespace Marginalia

structure Record where
  id : Int
  language : Text
  content : Text
  className : Text
  relativePath : Text
  level : Level
  tags : List Text
  rows : Int × Int
  columns : Int × Int
  commitDate : Text
  deriving DecidableEq, Repr, Inhabited

namespace Record

def withId (r : Record) (id : Int) : Record := { r with id }

def withTags (r : Record) (tags : List Text) : Record := { r with tags }

def withRelativePath (r : Record) (relativePath : Text) : Record := { r with relativePath }

def withCommitDate (r : Record) (commitDate : Text) : Record := { r with commitDate }

end Record

/-- The tags that say something. -/
def keepTags (tags : List Text) : List Text := tags.filter fun t => !t.isEmpty

end Marginalia
