import Mathlib.Data.List.Infix

/-! Locations in a file system with symbolic links, and how a path is followed to one. -/
namespace Links

/-- A location: the names from the root down, none of them a link. -/
abbrev Loc := List String

inductive Node where
  | file (bytes : List UInt8)
  | link (target : List String)
  | dir
deriving DecidableEq, Repr

/-- What stands at each location. -/
abbrev Nodes := Loc → Option Node

/-- A path is walked from a directory; at a link the walk goes on with `jump`. -/
def walk (nodes : Nodes) (jump : List String → Option Loc) (done : Loc) : List String → Option Loc
  | [] => some done
  | name :: rest =>
    match nodes (done ++ [name]) with
    | none => none
    | some .dir => walk nodes jump (done ++ [name]) rest
    | some (.file _) => if rest = [] then some (done ++ [name]) else none
    | some (.link target) => jump (target ++ rest)

/-- Where a path leads from a directory; the budget is the number of links that may be followed. -/
def follow (nodes : Nodes) : Nat → Loc → List String → Option Loc
  | 0 => walk nodes fun _ => none
  | budget + 1 => walk nodes fun path => follow nodes budget [] path

/-- The two have the same kind, and lead to the same place. -/
def Node.Alike : Node → Node → Prop
  | .file _, .file _ => True
  | .link t, .link t' => t = t'
  | .dir, .dir => True
  | _, _ => False

/-- Some of the nodes, with files that may hold something else. -/
def Below (nodes nodes' : Nodes) : Prop :=
  ∀ q node, nodes q = some node → ∃ node', nodes' q = some node' ∧ node.Alike node'

/-- Only a directory has something in it. -/
def Treed (nodes : Nodes) : Prop := ∀ q name, nodes (q ++ [name]) ≠ none → nodes q = some .dir

section Follow
variable {nodes nodes' : Nodes} {budget : Nat} {done q : Loc} {todo : List String}

theorem Node.Alike.refl (node : Node) : node.Alike node := by
  cases node <;> simp [Node.Alike]

theorem Node.Alike.trans {a b c : Node} (h : a.Alike b) (h' : b.Alike c) : a.Alike c := by
  cases a <;> cases b <;> cases c <;> simp_all [Node.Alike]

theorem Below.refl (nodes : Nodes) : Below nodes nodes := fun _ node h => ⟨node, h, .refl node⟩

theorem Below.trans {a b c : Nodes} (h : Below a b) (h' : Below b c) : Below a c := by
  intro q node hq
  obtain ⟨node', hq', halike⟩ := h q node hq
  obtain ⟨node'', hq'', halike'⟩ := h' q node' hq'
  exact ⟨node'', hq'', halike.trans halike'⟩

section Equations
variable {name : String} {rest target : List String}

theorem follow_nil : follow nodes budget done [] = some done := by
  cases budget <;> rfl

theorem follow_none (h : nodes (done ++ [name]) = none) :
    follow nodes budget done (name :: rest) = none := by
  cases budget <;> rw [follow, walk, h]

theorem follow_dir (h : nodes (done ++ [name]) = some .dir) :
    follow nodes budget done (name :: rest) = follow nodes budget (done ++ [name]) rest := by
  cases budget <;> rw [follow, walk, h]

theorem follow_file {bytes : List UInt8} (h : nodes (done ++ [name]) = some (.file bytes)) :
    follow nodes budget done (name :: rest) = if rest = [] then some (done ++ [name]) else none := by
  cases budget <;> rw [follow, walk, h]

theorem follow_link_spent (h : nodes (done ++ [name]) = some (.link target)) :
    follow nodes 0 done (name :: rest) = none := by
  rw [follow, walk, h]

theorem follow_link (h : nodes (done ++ [name]) = some (.link target)) :
    follow nodes (budget + 1) done (name :: rest) = follow nodes budget [] (target ++ rest) := by
  rw [follow, walk, h]

end Equations

/-- On the links that may still be followed, and then on the path. -/
theorem follow_induct (nodes : Nodes) {motive : Nat → Loc → List String → Prop}
    (nil : ∀ budget done, motive budget done [])
    (missing : ∀ budget done name rest, nodes (done ++ [name]) = none →
      motive budget done (name :: rest))
    (dir : ∀ budget done name rest, nodes (done ++ [name]) = some .dir →
      motive budget (done ++ [name]) rest → motive budget done (name :: rest))
    (file : ∀ budget done name bytes, nodes (done ++ [name]) = some (.file bytes) →
      motive budget done [name])
    (notDir : ∀ budget done name rest bytes, nodes (done ++ [name]) = some (.file bytes) →
      rest ≠ [] → motive budget done (name :: rest))
    (spent : ∀ done name rest target, nodes (done ++ [name]) = some (.link target) →
      motive 0 done (name :: rest))
    (link : ∀ budget done name rest target, nodes (done ++ [name]) = some (.link target) →
      motive budget [] (target ++ rest) → motive (budget + 1) done (name :: rest))
    (budget : Nat) (done : Loc) (todo : List String) : motive budget done todo := by
  -- Until the path comes to a link the budget does not matter.
  have hwalk : ∀ budget, (∀ done name rest target, nodes (done ++ [name]) = some (.link target) →
      motive budget done (name :: rest)) → ∀ todo done, motive budget done todo := by
    intro budget hjump todo
    induction todo with
    | nil => exact nil budget
    | cons name rest ih =>
      intro done
      cases hnode : nodes (done ++ [name]) with
      | none => exact missing budget done name rest hnode
      | some node =>
        cases node with
        | dir => exact dir budget done name rest hnode (ih _)
        | link target => exact hjump done name rest target hnode
        | file bytes =>
          cases rest with
          | nil => exact file budget done name bytes hnode
          | cons next rest => exact notDir budget done name _ bytes hnode (List.cons_ne_nil _ _)
  induction budget generalizing done todo with
  | zero => exact hwalk 0 spent todo done
  | succ budget ih =>
    refine hwalk _ (fun done name rest target hnode => ?_) todo done
    exact link budget done name rest target hnode (ih [] (target ++ rest))

theorem alike_dir {node : Node} (h : Node.Alike .dir node) : node = .dir := by
  cases node with
  | dir => rfl
  | file | link => exact h.elim

theorem alike_link {node : Node} {target : List String} (h : Node.Alike (.link target) node) :
    node = .link target := by
  cases node with
  | link target' => rw [show target = target' from h]
  | file | dir => exact h.elim

theorem alike_file {node : Node} {bytes : List UInt8} (h : Node.Alike (.file bytes) node) :
    ∃ bytes', node = .file bytes' := by
  cases node with
  | file bytes' => exact ⟨bytes', rfl⟩
  | link | dir => exact h.elim

/-- With fewer nodes and a smaller budget a path leads to the same place, if anywhere. -/
theorem follow_mono (hbelow : Below nodes nodes') {budget' : Nat} (hle : budget ≤ budget')
    (h : follow nodes budget done todo = some q) : follow nodes' budget' done todo = some q := by
  induction budget, done, todo using follow_induct nodes generalizing budget' with
  | nil budget done =>
    rw [follow_nil] at h
    rw [follow_nil, h]
  | missing budget done name rest hnone =>
    rw [follow_none hnone] at h
    cases h
  | dir budget done name rest hdir ih =>
    obtain ⟨node, hnode, halike⟩ := hbelow _ _ hdir
    rw [follow_dir hdir] at h
    rw [follow_dir (alike_dir halike ▸ hnode)]
    exact ih hle h
  | file budget done name bytes hfile =>
    obtain ⟨node, hnode, halike⟩ := hbelow _ _ hfile
    obtain ⟨bytes', rfl⟩ := alike_file halike
    rw [follow_file hfile] at h
    rwa [follow_file hnode]
  | notDir budget done name rest bytes hfile hrest =>
    rw [follow_file hfile, if_neg hrest] at h
    cases h
  | spent done name rest target hlink =>
    rw [follow_link_spent hlink] at h
    cases h
  | link budget done name rest target hlink ih =>
    obtain ⟨node, hnode, halike⟩ := hbelow _ _ hlink
    obtain ⟨more, rfl⟩ : ∃ more, budget' = more + 1 := ⟨budget' - 1, by omega⟩
    rw [follow_link hlink] at h
    rw [follow_link (alike_link halike ▸ hnode)]
    exact ih (by omega) h

/-- The way to a directory leads through no file. -/
theorem follow_of_dirs (hsame : ∀ q node, nodes q = some node → (∀ bytes, node ≠ .file bytes) →
    nodes' q = some node) (hdir : nodes q = some .dir)
    (h : follow nodes budget done todo = some q) : follow nodes' budget done todo = some q := by
  induction budget, done, todo using follow_induct nodes with
  | nil budget done =>
    rw [follow_nil] at h
    rw [follow_nil, h]
  | missing budget done name rest hnone =>
    rw [follow_none hnone] at h
    cases h
  | dir budget done name rest hnode ih =>
    rw [follow_dir hnode] at h
    rw [follow_dir (hsame _ _ hnode nofun)]
    exact ih h
  | file budget done name bytes hfile =>
    rw [follow_file hfile, if_pos rfl] at h
    cases h
    rw [hfile] at hdir
    cases hdir
  | notDir budget done name rest bytes hfile hrest =>
    rw [follow_file hfile, if_neg hrest] at h
    cases h
  | spent done name rest target hlink =>
    rw [follow_link_spent hlink] at h
    cases h
  | link budget done name rest target hlink ih =>
    rw [follow_link hlink] at h
    rw [follow_link (hsame _ _ hlink nofun)]
    exact ih h

/-- The last name of a path stands in the directory that the rest leads to; it may be a link. -/
theorem follow_concat {name : String} (h : follow nodes budget done (todo ++ [name]) = some q) :
    ∃ r, follow nodes budget done todo = some r ∧
      ((q = r ++ [name] ∧ ∃ node, nodes q = some node ∧ ∀ target, node ≠ .link target) ∨
        ∃ target budget', budget' < budget ∧ nodes (r ++ [name]) = some (.link target) ∧
          follow nodes budget' [] target = some q) := by
  induction budget, done, todo using follow_induct nodes with
  | nil budget done =>
    refine ⟨done, follow_nil, ?_⟩
    rw [List.nil_append] at h
    cases hnode : nodes (done ++ [name]) with
    | none =>
      rw [follow_none hnode] at h
      cases h
    | some node =>
      cases node with
      | dir =>
        rw [follow_dir hnode, follow_nil] at h
        cases h
        exact .inl ⟨rfl, _, hnode, nofun⟩
      | file bytes =>
        rw [follow_file hnode, if_pos rfl] at h
        cases h
        exact .inl ⟨rfl, _, hnode, nofun⟩
      | link target =>
        cases budget with
        | zero =>
          rw [follow_link_spent hnode] at h
          cases h
        | succ budget =>
          rw [follow_link hnode, List.append_nil] at h
          exact .inr ⟨target, budget, budget.lt_succ_self, rfl, h⟩
  | missing budget done first rest hnone =>
    rw [List.cons_append, follow_none hnone] at h
    cases h
  | dir budget done first rest hdir ih =>
    rw [List.cons_append, follow_dir hdir] at h
    rw [follow_dir hdir]
    exact ih h
  | file budget done first bytes hfile =>
    rw [List.cons_append, follow_file hfile, if_neg (by simp)] at h
    cases h
  | notDir budget done first rest bytes hfile hrest =>
    rw [List.cons_append, follow_file hfile, if_neg (by simp)] at h
    cases h
  | spent done first rest target hlink =>
    rw [List.cons_append, follow_link_spent hlink] at h
    cases h
  | link budget done first rest target hlink ih =>
    rw [List.cons_append, follow_link hlink, ← List.append_assoc] at h
    rw [follow_link hlink]
    obtain ⟨r, hr, hlast⟩ := ih h
    refine ⟨r, hr, hlast.imp_right ?_⟩
    rintro ⟨target', budget', hlt, hnode, hfollow⟩
    exact ⟨target', budget', by omega, hnode, hfollow⟩

/-- What stands in a directory, other than a link, is where the path to it leads. -/
theorem follow_into {name : String} {r : Loc} {node : Node} (htree : Treed nodes)
    (h : follow nodes budget done todo = some r) (hnode : nodes (r ++ [name]) = some node)
    (hlink : ∀ target, node ≠ .link target) :
    follow nodes budget done (todo ++ [name]) = some (r ++ [name]) := by
  induction budget, done, todo using follow_induct nodes with
  | nil budget done =>
    rw [follow_nil] at h
    cases h
    rw [List.nil_append]
    cases node with
    | dir => rw [follow_dir hnode, follow_nil]
    | file bytes => rw [follow_file hnode, if_pos rfl]
    | link target => exact absurd rfl (hlink target)
  | missing budget done first rest hnone =>
    rw [follow_none hnone] at h
    cases h
  | dir budget done first rest hdir ih =>
    rw [follow_dir hdir] at h
    rw [List.cons_append, follow_dir hdir]
    exact ih h
  | file budget done first bytes hfile =>
    rw [follow_file hfile, if_pos rfl] at h
    cases h
    have hdir := htree _ _ (by rw [hnode]; nofun : nodes (done ++ [first] ++ [name]) ≠ none)
    rw [hfile] at hdir
    cases hdir
  | notDir budget done first rest bytes hfile hrest =>
    rw [follow_file hfile, if_neg hrest] at h
    cases h
  | spent done first rest target hlink' =>
    rw [follow_link_spent hlink'] at h
    cases h
  | link budget done first rest target hlink' ih =>
    rw [follow_link hlink'] at h
    rw [List.cons_append, follow_link hlink', ← List.append_assoc]
    exact ih h

/-- What has something below it is a directory. -/
theorem dir_of_below (htree : Treed nodes) {loc rest : Loc} (hrest : rest ≠ [])
    (h : nodes (loc ++ rest) ≠ none) : nodes loc = some .dir := by
  induction rest using List.reverseRecOn with
  | nil => exact absurd rfl hrest
  | append_singleton rest name ih =>
    rw [← List.append_assoc] at h
    have hdir := htree _ _ h
    by_cases hempty : rest = []
    · rwa [hempty, List.append_nil] at hdir
    · exact ih hempty (by rw [hdir]; nofun)

/-- A path leads to a file or to a directory. -/
theorem follow_lands (hroot : nodes [] = some .dir) (hdone : nodes done = some .dir)
    (h : follow nodes budget done todo = some q) :
    ∃ node, nodes q = some node ∧ ∀ target, node ≠ .link target := by
  induction budget, done, todo using follow_induct nodes with
  | nil budget done =>
    rw [follow_nil] at h
    cases h
    exact ⟨_, hdone, nofun⟩
  | missing budget done name rest hnone =>
    rw [follow_none hnone] at h
    cases h
  | dir budget done name rest hdir ih =>
    rw [follow_dir hdir] at h
    exact ih hdir h
  | file budget done name bytes hfile =>
    rw [follow_file hfile, if_pos rfl] at h
    cases h
    exact ⟨_, hfile, nofun⟩
  | notDir budget done name rest bytes hfile hrest =>
    rw [follow_file hfile, if_neg hrest] at h
    cases h
  | spent done name rest target hlink =>
    rw [follow_link_spent hlink] at h
    cases h
  | link budget done name rest target hlink ih =>
    rw [follow_link hlink] at h
    exact ih hroot h

/-- The length of the longest path that leads anywhere in a tree of this depth. -/
def reach (depth : Nat) : Nat → Nat
  | 0 => depth + 1
  | budget + 1 => reach depth budget + (depth + 1)

theorem depth_lt_reach (depth budget : Nat) : depth < reach depth budget := by
  cases budget with
  | zero => exact depth.lt_succ_self
  | succ budget =>
    rw [reach]
    omega

theorem length_of_follow {depth : Nat} (hdepth : ∀ loc, nodes loc ≠ none → loc.length ≤ depth)
    (hdone : done.length ≤ depth) (h : follow nodes budget done todo = some q) :
    done.length + todo.length ≤ reach depth budget := by
  induction budget, done, todo using follow_induct nodes with
  | nil budget done =>
    have hlt := depth_lt_reach depth budget
    rw [List.length_nil]
    omega
  | missing budget done name rest hnone =>
    rw [follow_none hnone] at h
    cases h
  | dir budget done name rest hdir ih =>
    rw [follow_dir hdir] at h
    have hlen := ih (hdepth _ (by rw [hdir]; nofun)) h
    rw [List.length_append, List.length_singleton] at hlen
    rw [List.length_cons]
    omega
  | file budget done name bytes hfile =>
    have hlen := hdepth _ (by rw [hfile]; nofun : nodes (done ++ [name]) ≠ none)
    have hlt := depth_lt_reach depth budget
    rw [List.length_append, List.length_singleton] at hlen
    rw [List.length_singleton]
    omega
  | notDir budget done name rest bytes hfile hrest =>
    rw [follow_file hfile, if_neg hrest] at h
    cases h
  | spent done name rest target hlink =>
    rw [follow_link_spent hlink] at h
    cases h
  | link budget done name rest target hlink ih =>
    rw [follow_link hlink] at h
    have hlen := ih (Nat.zero_le depth) h
    rw [List.length_append, List.length_nil] at hlen
    rw [List.length_cons, reach]
    omega

end Follow

/-- A file system from what stands at its locations. -/
def nodesOf (entries : List (Loc × Node)) : Nodes := fun loc => entries.lookup loc

theorem mem_of_nodesOf {entries : List (Loc × Node)} {loc : Loc} {node : Node}
    (h : nodesOf entries loc = some node) : (loc, node) ∈ entries := by
  obtain ⟨before, after, hentries, -⟩ := List.lookup_eq_some_iff.mp h
  exact hentries ▸ List.mem_append_right before List.mem_cons_self

theorem treed_nodesOf {entries : List (Loc × Node)}
    (h : ∀ e ∈ entries, e.1 = [] ∨ nodesOf entries e.1.dropLast = some .dir) :
    Treed (nodesOf entries) := by
  intro q name hnode
  obtain ⟨node, hnode⟩ := Option.ne_none_iff_exists'.mp hnode
  rcases h _ (mem_of_nodesOf hnode) with hnil | hdir
  · exact absurd hnil (by simp)
  · rwa [List.dropLast_concat] at hdir

end Links
