import Shellflow.Lib.Disk
import Mathlib.Data.List.Infix
import Mathlib.Tactic.ByContra

/-! One tree written over another, and trees put in the place of a subtree. -/
namespace Disk

namespace Tree
variable {t dst src sub : Tree} {q : Path} {name : String}

/-- Only a directory has anything below it. -/
def Closed (t : Tree) : Prop := ∀ q name, t (q ++ [name]) ≠ none → t q = some .dir

theorem Closed.below (h : t.Closed) (hroot : t [] ≠ some .dir) (hq : q ≠ []) : t q = none := by
  induction q using List.reverseRecOn with
  | nil => exact absurd rfl hq
  | append_singleton front name ih =>
    by_contra hsome
    have hdir := h front name hsome
    by_cases hfront : front = []
    · exact hroot (hfront ▸ hdir)
    · rw [ih hfront] at hdir
      cases hdir

def isLeaf (t : Tree) (q : Path) : Bool :=
  match t q with
  | none | some .dir => false
  | some _ => true

theorem isLeaf_iff : t.isLeaf q = true ↔ ∃ node, t q = some node ∧ node ≠ .dir := by
  unfold isLeaf
  cases h : t q with
  | none => simp
  | some node => cases node <;> simp

/-- A tree written over another one. Where `keeps` holds, what is there stays with all below it; else
a file takes the place of all below it. -/
def overlay (keeps : Path → Bool) (dst src : Tree) : Tree := fun q =>
  if q.inits.any keeps then dst q
  else
    match src q with
    | some node => some node
    | none => if q.inits.any src.isLeaf then none else dst q

/-- A directory meets a file, or a file a directory. -/
def clash (dst src : Tree) (q : Path) : Bool :=
  (src q == some .dir && dst.isLeaf q) || (src.isLeaf q && dst q == some .dir)

/-- The way of `cp`: nothing is replaced by something of another kind. -/
def cpOver (dst src : Tree) : Tree := overlay (clash dst src) dst src

theorem overlay_kept {keeps : Path → Bool} (h : keeps q = true) : overlay keeps dst src q = dst q := by
  rw [overlay, if_pos (List.any_eq_true.mpr ⟨q, (List.mem_inits q q).mpr (List.prefix_refl q), h⟩)]

/-- What was in the way is still in the way. -/
theorem clash_cpOver (h : clash dst src q = true) : clash (cpOver dst src) src q = true := by
  have hkept : cpOver dst src q = dst q := overlay_kept h
  rw [clash, isLeaf, hkept]
  exact h

theorem cpOver_cpOver (dst src : Tree) : cpOver (cpOver dst src) src = cpOver dst src := by
  funext q
  by_cases hkeeps : q.inits.any (clash (cpOver dst src) src) = true
  · rw [cpOver, overlay, if_pos hkeeps]
  · have hfree : ¬ q.inits.any (clash dst src) = true := by
      intro hany
      obtain ⟨p, hp, hclash⟩ := List.any_eq_true.mp hany
      exact hkeeps (List.any_eq_true.mpr ⟨p, hp, clash_cpOver hclash⟩)
    have hover : ∀ d : Tree, ¬ q.inits.any (clash d src) = true → cpOver d src q =
        match src q with
        | some node => some node
        | none => if q.inits.any src.isLeaf then none else d q := by
      intro d hd
      rw [cpOver, overlay, if_neg hd]
    rw [hover _ hkeeps, hover dst hfree]
    cases src q with
    | some node => rfl
    | none => by_cases hleaf : q.inits.any src.isLeaf = true <;> simp [hleaf]

def child (t : Tree) (name : String) : Tree := fun q => t (name :: q)

/-- The tree with another one under a name. -/
def putChild (name : String) (t sub : Tree) : Tree
  | [] => t []
  | x :: q => if x = name then sub q else t (x :: q)

@[simp] theorem putChild_root : putChild name t sub [] = t [] := rfl

@[simp] theorem child_putChild : child (putChild name t sub) name = sub := by
  funext q
  rw [child, putChild, if_pos rfl]

@[simp] theorem putChild_putChild {sub' : Tree} :
    putChild name (putChild name t sub) sub' = putChild name t sub' := by
  funext q
  cases q with
  | nil => rfl
  | cons x q => by_cases hx : x = name <;> simp [putChild, hx]

theorem putChild_self (h : child t name = sub) : putChild name t sub = t := by
  funext q
  cases q with
  | nil => rfl
  | cons x q =>
    by_cases hx : x = name
    · rw [putChild, if_pos hx, ← h, hx]
      rfl
    · rw [putChild, if_neg hx]

theorem putChild_inj {sub' : Tree} (h : putChild name t sub = putChild name t sub') : sub = sub' := by
  have hchild := congrArg (fun u => child u name) h
  simpa using hchild

/-- The directory alone. -/
def onlyDir : Tree := fun q => if q = [] then some .dir else none

/-- The tree with a directory at its root. -/
def asDir (t : Tree) : Tree := fun q => if q = [] then some .dir else t q

end Tree

namespace Store
variable {d : Store} {p : Path} {t u : Tree} {name : String}

@[simp] theorem replace_replace : (d.replace p t).replace p u = d.replace p u := by
  funext q
  simp only [replace]
  cases Path.below p q <;> rfl

theorem replace_treeAt (d : Store) (p : Path) : d.replace p (d.treeAt p) = d := by
  funext q
  rw [replace]
  cases hbelow : Path.below p q with
  | none => rfl
  | some rest =>
    rw [Path.below] at hbelow
    split at hbelow
    · next hpre =>
      obtain ⟨more, rfl⟩ := List.isPrefixOf_iff_prefix.mp hpre
      have hrest : more = rest := by simpa using hbelow
      rw [hrest]
      rfl
    · cases hbelow

theorem replace_inj (h : d.replace p t = d.replace p u) : t = u := by
  have htree := congrArg (fun s => s.treeAt p) h
  simpa [treeAt_replace] using htree

/-- A replacement below a path is one at the path. -/
theorem replace_child (d : Store) (p : Path) (name : String) (t : Tree) :
    d.replace (p ++ [name]) t = d.replace p (Tree.putChild name (d.treeAt p) t) := by
  funext q
  by_cases hpre : p <+: q
  · obtain ⟨rest, rfl⟩ := hpre
    rw [replace, replace, Path.below_append]
    cases rest with
    | nil =>
      have hnot : ¬ (p ++ [name]).isPrefixOf (p ++ []) = true := by
        rw [List.isPrefixOf_iff_prefix]
        intro hle
        exact absurd hle.length_le (by simp)
      rw [Path.below, if_neg hnot]
      rfl
    | cons x rest =>
      by_cases hx : x = name
      · have hbelow := Path.below_append (p ++ [name]) rest
        rw [List.append_assoc, List.singleton_append] at hbelow
        rw [hx, hbelow]
        simp [Tree.putChild]
      · have hnot : ¬ (p ++ [name]).isPrefixOf (p ++ x :: rest) = true := by
          rw [List.isPrefixOf_iff_prefix, List.prefix_append_right_inj]
          intro hle
          exact hx (List.cons_prefix_cons.mp hle).1.symm
        rw [Path.below, if_neg hnot]
        simp [Tree.putChild, hx, treeAt]
  · have hfar : ¬ (p ++ [name]).isPrefixOf q = true := by
      rw [List.isPrefixOf_iff_prefix]
      exact fun hle => hpre ((List.prefix_append p [name]).trans hle)
    have hnot : ¬ p.isPrefixOf q = true := by rwa [List.isPrefixOf_iff_prefix]
    rw [replace, replace, Path.below, Path.below, if_neg hfar, if_neg hnot]

theorem replace_comm {p' : Path} (h : Path.Apart p p') :
    (d.replace p t).replace p' u = (d.replace p' u).replace p t := by
  funext q
  simp only [replace]
  cases hbelow : Path.below p q with
  | none => cases Path.below p' q <;> rfl
  | some rest =>
    cases hbelow' : Path.below p' q with
    | none => rfl
    | some rest' =>
      rw [Path.below] at hbelow'
      split at hbelow'
      · next hpre =>
        obtain ⟨more, rfl⟩ := List.isPrefixOf_iff_prefix.mp hpre
        cases hbelow.symm.trans (h more)
      · cases hbelow'

end Store

end Disk
