import SpikeMesh.Error
import Std.Data.ExtTreeSet

set_option autoImplicit false

/-! # Tag pools

A pool hands out tags up to a largest one. A request may name its tag, which must not have been
handed out before; any other request gets the tag after the highest one handed out so far, or the
last of all tags once this was handed out. -/

namespace SpikeMesh

/-- A pool of tags. -/
structure TagPool where
  kind : TagKind
  /-- The first tag for requests that name none. -/
  min : UInt32
  /-- The largest tag. -/
  max : UInt32
  /-- The highest tag handed out so far. -/
  highest : Option UInt32
  used : Std.ExtTreeSet UInt32

namespace TagPool

/-- A pool from which nothing was handed out. -/
def new (kind : TagKind) (min max : UInt32) : TagPool := ⟨kind, min, max, none, ∅⟩

/-- The pool after a tag was handed out. -/
def handOut (p : TagPool) (tag : UInt32) : TagPool :=
  { p with
    used := p.used.insert tag
    highest := some (match p.highest with
      | some h => Max.max h tag
      | none => tag) }

/-- The next tag for a request that names none: the one above the highest, as far as there is
    a higher one, but none below the first. -/
def nextTag (p : TagPool) : UInt32 :=
  match p.highest with
  | some h => Max.max (UInt32.ofNat (Min.min (h.toNat + 1) (UInt32.size - 1))) p.min
  | none => p.min

/-- Whether a tag may be handed out to a request that names it. -/
def explicitTag (p : TagPool) (tag : UInt32) (subject : String) :
    Except PipelineError UInt32 :=
  if p.used.contains tag then .error (.tagConflict p.kind tag subject)
  else if p.max < tag then
    .error (.invalidConstraint subject (p.kind.text ++ " tag " ++ Text.natural tag.toNat
      ++ " is above the pool maximum " ++ Text.natural p.max.toNat))
  else .ok tag

/-- The tag for a request that names none. -/
def automaticTag (p : TagPool) : Except PipelineError UInt32 :=
  if p.max < p.nextTag then .error (.tagPoolExhausted p.kind p.max) else .ok p.nextTag

/-- Hand out a tag: the one asked for, or the next one. A request that fails leaves the pool as
    it was. -/
def allocate (p : TagPool) (requested : Option UInt32) (subject : String) :
    Except PipelineError (UInt32 × TagPool) := do
  let tag ← match requested with
    | some tag => p.explicitTag tag subject
    | none => p.automaticTag
  return (tag, p.handOut tag)

end TagPool

end SpikeMesh
