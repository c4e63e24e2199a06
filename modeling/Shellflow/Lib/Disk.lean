/-! A disk as a map from paths, with operations that can stop half-way. -/
namespace Disk

abbrev Path := List String

inductive Node
  | dir
  | file (content : List UInt8)
  | link (target : String)
deriving DecidableEq, Repr

/-- What is found at each path. -/
def Store := Path → Option Node

/-- What is found below a path, from there on. -/
def Tree := Path → Option Node

/-- The rest of a path below another. -/
def Path.below (p q : Path) : Option Path :=
  if p.isPrefixOf q then some (q.drop p.length) else none

theorem Path.below_append (p q : Path) : Path.below p (p ++ q) = some q := by
  have hprefix : p.isPrefixOf (p ++ q) = true :=
    List.isPrefixOf_iff_prefix.mpr (List.prefix_append p q)
  rw [Path.below, if_pos hprefix, List.drop_left]

/-- Nothing is below both of the paths. -/
def Path.Apart (p q : Path) : Prop := ∀ rest, Path.below p (q ++ rest) = none

theorem Path.apart_siblings {parent : Path} {a b : String} (h : a ≠ b) :
    Path.Apart (parent ++ [a]) (parent ++ [b]) := by
  intro rest
  have hprefix : ¬ (parent ++ [a]).isPrefixOf (parent ++ [b] ++ rest) = true := by
    rw [List.isPrefixOf_iff_prefix, List.append_assoc, List.prefix_append_right_inj,
      List.singleton_append]
    intro hab
    exact h (List.cons_prefix_cons.mp hab).1
  exact if_neg hprefix

namespace Tree

def empty : Tree := fun _ => none

/-- What is left after some of the paths are gone. -/
def without (t : Tree) (gone : Path → Bool) : Tree := fun q => if gone q then none else t q

/-- Everything in `wanted` is there. -/
def Includes (t wanted : Tree) : Prop := ∀ q node, wanted q = some node → t q = some node

theorem Includes.refl (t : Tree) : t.Includes t := fun _ _ h => h

end Tree

namespace Store

def treeAt (d : Store) (p : Path) : Tree := fun q => d (p ++ q)

/-- The disk with another tree at a path. -/
def replace (d : Store) (p : Path) (t : Tree) : Store := fun q =>
  match Path.below p q with
  | some rest => t rest
  | none => d q

theorem treeAt_replace (d : Store) (p : Path) (t : Tree) : (d.replace p t).treeAt p = t := by
  funext q
  rw [treeAt, replace, Path.below_append]

theorem treeAt_replace_apart {p q : Path} (h : Path.Apart p q) (d : Store) (t : Tree) :
    (d.replace p t).treeAt q = d.treeAt q := by
  funext rest
  rw [treeAt, replace, h rest]
  rfl

/-- Whether an operation was done, and the disk it left. -/
structure Outcome where
  done : Bool
  disk : Store

/-- The directories on the way to a path; a failure leaves the ones above some depth. -/
def createDirAll (d : Store) (p : Path) (failsAt : Option Nat) : Outcome :=
  ⟨failsAt.isNone, fun q =>
    if q.isPrefixOf p && (failsAt.all fun n => q.length < n) && (d q).isNone then some .dir
    else d q⟩

/-- Everything at and below a path; a failure says what is gone nevertheless. -/
def remove (d : Store) (p : Path) (failsWith : Option (Path → Bool)) : Outcome :=
  match failsWith with
  | none => ⟨true, d.replace p .empty⟩
  | some gone => ⟨false, d.replace p ((d.treeAt p).without gone)⟩

/-- A rename of what is there is done at once, or not at all. -/
def rename (d : Store) (source target : Path) (fails : Bool) : Outcome :=
  if fails || (d source).isNone then ⟨false, d⟩
  else ⟨true, (d.replace source .empty).replace target (d.treeAt source)⟩

theorem treeAt_createDirAll {p q : Path} (h : q.length > p.length) (d : Store)
    (failsAt : Option Nat) : (d.createDirAll p failsAt).disk.treeAt q = d.treeAt q := by
  funext rest
  have hprefix : ¬ (q ++ rest).isPrefixOf p = true := by
    rw [List.isPrefixOf_iff_prefix]
    intro hle
    have hlen := hle.length_le
    rw [List.length_append] at hlen
    omega
  simp only [treeAt, createDirAll]
  rw [Bool.eq_false_iff.mpr hprefix]
  rfl

/-- What a removal leaves of a tree. -/
def left (t : Tree) : Option (Path → Bool) → Tree
  | none => .empty
  | some gone => t.without gone

theorem treeAt_remove (d : Store) (p : Path) (failsWith : Option (Path → Bool)) :
    (d.remove p failsWith).disk.treeAt p = left (d.treeAt p) failsWith := by
  cases failsWith with
  | none => exact treeAt_replace d p .empty
  | some gone => exact treeAt_replace d p _

theorem treeAt_remove_apart {p q : Path} (h : Path.Apart p q) (d : Store)
    (failsWith : Option (Path → Bool)) :
    (d.remove p failsWith).disk.treeAt q = d.treeAt q := by
  cases failsWith with
  | none => exact treeAt_replace_apart h d .empty
  | some gone => exact treeAt_replace_apart h d _

end Store
end Disk
