import Shellflow.Host.Credstore
import Shellflow.Lib.Retain

/-! The retention rule of the snapshots: the newest ones of a service stay, the rest is shredded. -/
namespace Shellflow
open Process Process.Program

/-- A name in a directory, which is text or not. -/
inductive FileName
  | text (name : String)
  | raw (bytes : List UInt8)
deriving DecidableEq

def FileName.toStr : FileName → Option String
  | .text name => some name
  | .raw _ => none

structure DirEntry where
  name : FileName
  isDir : Bool
deriving DecidableEq

structure Listing where
  entries : List DirEntry
  distinct : (entries.map DirEntry.name).Nodup

def snapshotPrefix (service : String) : String := service ++ "-backup-"

def snapshots (service : String) (entries : List DirEntry) : List DirEntry :=
  entries.filter fun e => Str.startsWith (e.name.toStr.getD "") (snapshotPrefix service)

/-- The stamp the entries are sorted by; a name without one counts as the oldest. -/
def stampOf (service : String) (e : DirEntry) : Nat :=
  (Str.parseU64 (Str.trimStartPattern (e.name.toStr.getD "") (snapshotPrefix service))).getD 0

/-- The target, as far as the retention rule asks for it: what its directories hold, and which
removals fail. -/
structure PruneHost where
  list : List String → Except HostError Listing
  shred : DirEntry → Option HostError

/-- The state lists the entries that were given up to removal; one that fails has begun. -/
def shredAndRemove (h : PruneHost) (e : DirEntry) : Program (List DirEntry) HostError Unit := do
  act fun removed => ((), removed ++ [e])
  match h.shred e with
  | none => pure ()
  | some error => fail error

def pruneSnapshots (h : PruneHost) (dir service : String) (keep : Nat) :
    Program (List DirEntry) HostError Unit :=
  match h.list ((parentDir dir).getD ["root"]) with
  | .error e => fail e
  | .ok listing =>
    let found := snapshots service listing.entries
    if found.length ≤ keep then pure ()
    else each (shredAndRemove h) (Retain.surplus (stampOf service) keep found)

/-- The stamp of a name of this service: the number behind the prefix. -/
def numericStamp (service name : String) : Option Nat :=
  (Str.stripPrefix name (snapshotPrefix service)).bind fun stamp =>
    if stamp.toList.all Str.isAsciiDigit then Str.parseU64 stamp else none

/-- The stamp of an entry that is a snapshot of the service. -/
def snapshotStamp (service : String) (e : DirEntry) : Option Nat :=
  if e.isDir then e.name.toStr.bind (numericStamp service) else none

/-- What the retention rule may remove from a directory. -/
structure PrunesWell (service : String) (own : Option String) (keep : Nat)
    (entries removed : List DirEntry) : Prop where
  only : ∀ e ∈ removed, (snapshotStamp service e).isSome
  newest : ∀ e ∈ removed, ∀ n, snapshotStamp service e = some n →
    keep ≤ (entries.filter fun k =>
      k ∉ removed && (snapshotStamp service k).any fun m => n ≤ m).length
  spared : ∀ e ∈ removed, ∀ name, own = some name → e.name ≠ .text name

section Theorems
variable {h : PruneHost} {service : String} {keep : Nat} {entries : List DirEntry} {e : DirEntry}

/-- The removals start one after the other, up to one that fails. -/
theorem ensures_removals (h : PruneHost) (l : List DirEntry) :
    Ensures (each (shredAndRemove h) l) []
      ⟨fun _ removed => removed = l,
        fun _ removed => removed <+: l ∧ ∃ e ∈ l, h.shred e ≠ none, fun _ _ => False⟩ := by
  refine ensures_each (fun done removed => removed = done) rfl ?_ fun _ hl => hl
  rintro done e rest removed hl rfl
  rw [shredAndRemove, ensures_bind, ensures_act]
  cases hshred : h.shred e with
  | none => exact rfl
  | some error =>
    refine ⟨⟨rest, by simp [hl]⟩, e, ?_, by rw [hshred]; exact nofun⟩
    simp [hl]

/-- What the rule removes when nothing fails. -/
def surplusOf (service : String) (keep : Nat) (entries : List DirEntry) : List DirEntry :=
  if (snapshots service entries).length ≤ keep then []
  else Retain.surplus (stampOf service) keep (snapshots service entries)

theorem ensures_pruneSnapshots (h : PruneHost) (dir service : String) (keep : Nat) {listing : Listing}
    (hlist : h.list ((parentDir dir).getD ["root"]) = .ok listing) :
    Ensures (pruneSnapshots h dir service keep) []
      ⟨fun _ removed => removed = surplusOf service keep listing.entries,
        fun _ removed => removed <+: surplusOf service keep listing.entries ∧
          ∃ e, h.shred e ≠ none,
        fun _ _ => False⟩ := by
  rw [pruneSnapshots, hlist, surplusOf]
  dsimp only
  split
  · exact rfl
  · refine (ensures_removals h _).mono (fun _ _ h => h) ?_ fun _ _ h => h
    rintro - removed ⟨hfront, e, -, hshred⟩
    exact ⟨hfront, e, hshred⟩

/-- What was given up to removal when the rule is applied. -/
def removedBy (h : PruneHost) (dir service : String) (keep : Nat) : List DirEntry :=
  (pruneSnapshots h dir service keep []).2

theorem removedBy_front (h : PruneHost) (dir service : String) (keep : Nat) {listing : Listing}
    (hlist : h.list ((parentDir dir).getD ["root"]) = .ok listing) :
    removedBy h dir service keep <+: surplusOf service keep listing.entries ∧
      ((∀ e, h.shred e = none) →
        removedBy h dir service keep = surplusOf service keep listing.entries) := by
  have hrun := ensures_pruneSnapshots h dir service keep hlist
  constructor
  · refine ensures_final.mp (hrun.mono ?_ (fun _ _ h => h.1) fun _ _ h => h.elim)
    rintro - removed rfl
    exact List.prefix_rfl
  · intro hnone
    refine ensures_final.mp (hrun.mono (fun _ _ h => h) ?_ fun _ _ h => h.elim)
    rintro - removed ⟨-, e, hshred⟩
    exact absurd (hnone e) hshred

theorem mem_snapshots_of_text {name : String} (he : e ∈ entries) (hname : e.name = .text name)
    (hstart : Str.startsWith name (snapshotPrefix service) = true) : e ∈ snapshots service entries := by
  rw [snapshots, List.mem_filter]
  refine ⟨he, ?_⟩
  rwa [hname, FileName.toStr, Option.getD_some]

theorem trimPattern_digits {pat digits : List Char} (hpat : '-' ∈ pat)
    (hdigits : digits.all Str.isAsciiDigit = true) :
    Str.trimPatternChars pat (pat ++ digits).length (pat ++ digits) = digits := by
  have hnone : ∀ fuel, Str.trimPatternChars pat fuel digits = digits := by
    intro fuel
    cases fuel with
    | zero => rfl
    | succ fuel =>
      have hstop : pat.isPrefixOf? digits = none := by
        rw [← Option.not_isSome_iff_eq_none, List.isSome_isPrefixOf?_eq_isPrefixOf,
          List.isPrefixOf_iff_prefix]
        intro hfront
        have hdash := List.all_eq_true.mp hdigits '-' (hfront.subset hpat)
        exact absurd hdash (by decide)
      rw [Str.trimPatternChars, hstop]
  obtain ⟨fuel, hfuel⟩ : ∃ fuel, (pat ++ digits).length = fuel + 1 := by
    have hpos : 0 < pat.length := List.length_pos_of_mem hpat
    exact ⟨(pat ++ digits).length - 1, by rw [List.length_append]; omega⟩
  have hstrip : pat.isPrefixOf? (pat ++ digits) = some digits :=
    List.isPrefixOf?_eq_some_iff_append_eq.mpr rfl
  rw [hfuel, Str.trimPatternChars, hstrip]
  exact hnone fuel

/-- A snapshot of the service is one of the entries that the rule counts, with its own stamp. -/
theorem stampOf_snapshot {n : Nat} (h : snapshotStamp service e = some n) :
    (e ∈ entries → e ∈ snapshots service entries) ∧ stampOf service e = n := by
  rw [snapshotStamp] at h
  split at h
  · obtain ⟨name, hname, hstamp⟩ := Option.bind_eq_some_iff.mp h
    obtain ⟨digits, hstrip, hdigits⟩ := Option.bind_eq_some_iff.mp hstamp
    have htext : e.name = .text name := by
      cases hkind : e.name with
      | text name' =>
        rw [hkind, FileName.toStr, Option.some_inj] at hname
        rw [hname]
      | raw bytes =>
        rw [hkind] at hname
        cases hname
    rw [Str.stripPrefix, Option.map_eq_some_iff] at hstrip
    obtain ⟨rest, hrest, rfl⟩ := hstrip
    have hwhole := List.isPrefixOf?_eq_some_iff_append_eq.mp hrest
    rw [String.toList_ofList] at hdigits
    split at hdigits
    · next hall =>
      constructor
      · intro he
        refine mem_snapshots_of_text he htext ?_
        rw [Str.startsWith, List.isPrefixOf_iff_prefix]
        exact ⟨rest, hwhole⟩
      · have hdash : '-' ∈ (snapshotPrefix service).toList := by simp [snapshotPrefix]
        rw [stampOf, htext, FileName.toStr, Option.getD_some, Str.trimStartPattern,
          ← String.length_toList, ← hwhole, trimPattern_digits hdash hall, hdigits, Option.getD_some]
    · cases hdigits
  · cases h

theorem stampOf_of_snapshot {n : Nat} (h : snapshotStamp service e = some n) :
    stampOf service e = n := by
  have hboth : (e ∈ ([] : List DirEntry) → e ∈ snapshots service []) ∧ stampOf service e = n :=
    stampOf_snapshot h
  exact hboth.2

/-- The entries of a directory that the rule keeps, when there are too many. -/
def keptBy (service : String) (keep : Nat) (entries : List DirEntry) : List DirEntry :=
  (Retain.ranked (stampOf service) (snapshots service entries)).take keep

/-- The number in the name, for an entry that is a snapshot. -/
def ownStamp (service : String) (e : DirEntry) : Nat := (snapshotStamp service e).getD 0

/-- No more than the entries to keep match, or all of them are snapshots of the service and fewer
than that many are newer than the one of this run, or as new and listed before it. -/
def PruneSafe (service : String) (own : Option String) (keep : Nat) (entries : List DirEntry) : Prop :=
  (snapshots service entries).length ≤ keep ∨
    (∀ e ∈ snapshots service entries, (snapshotStamp service e).isSome) ∧
      ∀ e ∈ snapshots service entries, ∀ name, own = some name → e.name = .text name →
        ((snapshots service entries).filter fun k =>
          Retain.Ahead (ownStamp service) (snapshots service entries) e k).length < keep

theorem nodup_snapshots (listing : Listing) : (snapshots service listing.entries).Nodup :=
  (List.Nodup.of_map _ listing.distinct).filter _

theorem mem_kept_or_surplus (keep : Nat) (he : e ∈ snapshots service entries) :
    e ∈ keptBy service keep entries ∨
      e ∈ Retain.surplus (stampOf service) keep (snapshots service entries) := by
  rw [← List.mem_append, keptBy, Retain.surplus, List.take_append_drop]
  exact (Retain.ranked_perm _ _).mem_iff.mpr he

theorem kept_notMem_surplus (listing : Listing) (he : e ∈ keptBy service keep listing.entries) :
    e ∉ Retain.surplus (stampOf service) keep (snapshots service listing.entries) := by
  have hnodup : (Retain.ranked (stampOf service) (snapshots service listing.entries)).Nodup :=
    (Retain.ranked_perm _ _).nodup_iff.mpr (nodup_snapshots listing)
  rw [← List.take_append_drop keep (Retain.ranked _ _)] at hnodup
  exact fun hmem => (List.nodup_append.mp hnodup).2.2 e he e hmem rfl

/-- Where all entries are snapshots, the stamp they are sorted by is the one in the name. -/
theorem ahead_own (hall : ∀ k ∈ snapshots service entries, (snapshotStamp service k).isSome)
    (he : e ∈ snapshots service entries) :
    ((snapshots service entries).filter fun k =>
        Retain.Ahead (ownStamp service) (snapshots service entries) e k) =
      (snapshots service entries).filter fun k =>
        Retain.Ahead (stampOf service) (snapshots service entries) e k := by
  have hstamp : ∀ k ∈ snapshots service entries, ownStamp service k = stampOf service k := by
    intro k hk
    obtain ⟨n, hn⟩ := Option.isSome_iff_exists.mp (hall k hk)
    rw [ownStamp, hn, stampOf_of_snapshot hn, Option.getD_some]
  refine List.filter_congr fun k hk => decide_eq_decide.mpr ?_
  rw [Retain.Ahead, Retain.Ahead, hstamp k hk, hstamp e he]

/-- The entries that have to be left when one is removed: snapshots that are not older. -/
def notOlder (service : String) (n : Nat) (entries removed : List DirEntry) : List DirEntry :=
  entries.filter fun k => k ∉ removed && (snapshotStamp service k).any fun m => n ≤ m

theorem mem_notOlder {n : Nat} {removed : List DirEntry} : e ∈ notOlder service n entries removed ↔
    e ∈ entries ∧ e ∉ removed ∧ ∃ m, snapshotStamp service e = some m ∧ n ≤ m := by
  simp [notOlder, Option.any_eq_true]

/-- When the rule may remove what it removes, all it counts are snapshots. -/
theorem isSome_of_prunesWell {listing : Listing} {own : Option String}
    (hkeep : keep < (snapshots service listing.entries).length)
    (h : PrunesWell service own keep listing.entries
      (Retain.surplus (stampOf service) keep (snapshots service listing.entries))) :
    ∀ e ∈ snapshots service listing.entries, (snapshotStamp service e).isSome := by
  obtain ⟨e, he⟩ : ∃ e, e ∈ Retain.surplus (stampOf service) keep (snapshots service listing.entries) := by
    refine List.exists_mem_of_length_pos ?_
    rw [Retain.surplus, List.length_drop, (Retain.ranked_perm _ _).length_eq]
    omega
  obtain ⟨n, hn⟩ := Option.isSome_iff_exists.mp (h.only e he)
  have hcount := h.newest e he n hn
  change keep ≤ (notOlder service n listing.entries _).length at hcount
  have hsubset : notOlder service n listing.entries
      (Retain.surplus (stampOf service) keep (snapshots service listing.entries)) ⊆
        keptBy service keep listing.entries := by
    intro k hk
    obtain ⟨hmem, hleft, m, hm, -⟩ := mem_notOlder.mp hk
    exact (mem_kept_or_surplus _ ((stampOf_snapshot hm).1 hmem)).resolve_right hleft
  have hsubperm := List.subperm_of_subset ((List.Nodup.of_map _ listing.distinct).filter _) hsubset
  have hlen : (keptBy service keep listing.entries).length ≤ keep := List.length_take_le _ _
  have hperm := hsubperm.perm_of_length_le (hlen.trans hcount)
  intro k hk
  cases mem_kept_or_surplus keep hk with
  | inr hsurplus => exact h.only k hsurplus
  | inl hkept =>
    obtain ⟨-, -, m, hm, -⟩ := mem_notOlder.mp (hperm.mem_iff.mpr hkept)
    rw [hm, Option.isSome_some]

/-- Removing some of the surplus is right when all entries are snapshots and the one of this run is
not among the surplus. -/
theorem prunesWell_of_surplus {listing : Listing} {own : Option String} {removed : List DirEntry}
    (hkeep : keep < (snapshots service listing.entries).length)
    (hall : ∀ e ∈ snapshots service listing.entries, (snapshotStamp service e).isSome)
    (hremoved : removed <+: Retain.surplus (stampOf service) keep (snapshots service listing.entries))
    (hown : ∀ e ∈ Retain.surplus (stampOf service) keep (snapshots service listing.entries),
      ∀ name, own = some name → e.name ≠ .text name) :
    PrunesWell service own keep listing.entries removed where
  only e he := hall e (Retain.mem_of_mem_surplus (hremoved.subset he))
  spared e he := hown e (hremoved.subset he)
  newest := by
    intro e he n hn
    have hsubset : keptBy service keep listing.entries ⊆ notOlder service n listing.entries removed := by
      intro k hk
      have hfound : k ∈ snapshots service listing.entries :=
        (Retain.ranked_perm _ _).mem_iff.mp (List.mem_of_mem_take hk)
      obtain ⟨m, hm⟩ := Option.isSome_iff_exists.mp (hall k hfound)
      refine mem_notOlder.mpr ⟨List.mem_of_mem_filter hfound, fun hmem => ?_, m, hm, ?_⟩
      · exact kept_notMem_surplus listing hk (hremoved.subset hmem)
      · have hle := Retain.le_of_mem_surplus hk (hremoved.subset he)
        rwa [stampOf_of_snapshot hm, stampOf_of_snapshot hn] at hle
    have hnodup : (keptBy service keep listing.entries).Nodup :=
      ((Retain.ranked_perm _ _).nodup_iff.mpr (nodup_snapshots listing)).sublist (List.take_sublist _ _)
    have hlen : (keptBy service keep listing.entries).length = keep := by
      rw [keptBy, List.length_take, (Retain.ranked_perm _ _).length_eq]
      omega
    have hle := (List.subperm_of_subset hnodup hsubset).length_le
    rw [hlen] at hle
    exact hle

/-- The snapshot of a run stays: there are few enough, or few enough are ahead of it. -/
def OwnKept (service : String) (own : Option String) (keep : Nat) (entries : List DirEntry) : Prop :=
  (snapshots service entries).length ≤ keep ∨
    ∀ e ∈ snapshots service entries, ∀ name, own = some name → e.name = .text name →
      ((snapshots service entries).filter fun k =>
        Retain.Ahead (stampOf service) (snapshots service entries) e k).length < keep

theorem ownKept_iff (listing : Listing) (own : Option String) :
    OwnKept service own keep listing.entries ↔
      ∀ e ∈ surplusOf service keep listing.entries, ∀ name, own = some name → e.name ≠ .text name := by
  rw [OwnKept, surplusOf]
  by_cases hle : (snapshots service listing.entries).length ≤ keep
  · rw [if_pos hle]
    exact iff_of_true (.inl hle) nofun
  · rw [if_neg hle, or_iff_right hle]
    constructor
    · intro h e he name hown hname
      obtain ⟨hmem, hmany⟩ := (Retain.mem_surplus_iff (nodup_snapshots listing)).mp he
      exact absurd (h e hmem name hown hname) (Nat.not_lt.mpr hmany)
    · intro h e he name hown hname
      by_contra hmany
      have hleft := (Retain.mem_surplus_iff (nodup_snapshots listing)).mpr ⟨he, Nat.not_lt.mp hmany⟩
      exact h e hleft name hown hname

theorem pruneSnapshots_safe_iff (list : List String → Except HostError Listing)
    (dir service : String) (keep : Nat) (listing : Listing)
    (hlist : list ((parentDir dir).getD ["root"]) = .ok listing) :
    (∀ shred, PrunesWell service (fileName dir) keep listing.entries
        (removedBy ⟨list, shred⟩ dir service keep)) ↔
      PruneSafe service (fileName dir) keep listing.entries := by
  by_cases hle : (snapshots service listing.entries).length ≤ keep
  · refine iff_of_true (fun shred => ?_) (.inl hle)
    have hnone := (removedBy_front ⟨list, shred⟩ dir service keep hlist).1
    rw [surplusOf, if_pos hle, List.prefix_nil] at hnone
    rw [hnone]
    exact ⟨nofun, nofun, nofun⟩
  · have hsurplus : surplusOf service keep listing.entries =
        Retain.surplus (stampOf service) keep (snapshots service listing.entries) := if_neg hle
    have hkeep : keep < (snapshots service listing.entries).length := Nat.not_le.mp hle
    constructor
    · intro h
      have hremoved := (removedBy_front ⟨list, fun _ => none⟩ dir service keep
        hlist).2 fun _ => rfl
      have hwell := h fun _ => none
      rw [hremoved, hsurplus] at hwell
      have hall := isSome_of_prunesWell hkeep hwell
      refine .inr ⟨hall, fun e he name hown hname => ?_⟩
      rw [ahead_own hall he]
      by_contra hmany
      have hleft := (Retain.mem_surplus_iff (nodup_snapshots listing)).mpr ⟨he, Nat.not_lt.mp hmany⟩
      exact hwell.spared e hleft name hown hname
    · rintro (hfew | ⟨hall, hown⟩)
      · exact absurd hfew hle
      · intro shred
        refine prunesWell_of_surplus hkeep hall
          (hsurplus ▸ (removedBy_front ⟨list, shred⟩ dir _ _ hlist).1) ?_
        intro e he name hname htext
        have hmem := (Retain.mem_surplus_iff (nodup_snapshots listing)).mp he
        have hfew := hown e hmem.1 name hname htext
        rw [ahead_own hall hmem.1] at hfew
        exact absurd hfew (Nat.not_lt.mpr hmem.2)

end Theorems

def exampleListing : Listing where
  entries := [⟨.text "app-backup-1700000000", true⟩, ⟨.text "app-backup-1700000007", true⟩,
    ⟨.text "app-backup-1700000009", true⟩, ⟨.text "db-backup-1600000000", true⟩]
  distinct := by decide

/-- Two snapshots are kept, and the one of this run is the newest. -/
theorem pruneSnapshots_safe_three : PrunesWell "app" (some "app-backup-1700000009") 2
    exampleListing.entries (removedBy ⟨fun _ => .ok exampleListing, fun _ => none⟩
      "/root/app-backup-1700000009" "app" 2) := by
  have hname : fileName "/root/app-backup-1700000009" = some "app-backup-1700000009" := by
    decide +kernel
  have hnewest : ∀ e ∈ snapshots "app" exampleListing.entries,
      e.name = .text "app-backup-1700000009" →
        ((snapshots "app" exampleListing.entries).filter fun k => Retain.Ahead (ownStamp "app")
          (snapshots "app" exampleListing.entries) e k).length < 2 := by decide +kernel
  have hsafe : PruneSafe "app" (fileName "/root/app-backup-1700000009") 2 exampleListing.entries := by
    refine .inr ⟨by decide +kernel, fun e he name hown htext => hnewest e he ?_⟩
    rw [hname, Option.some_inj] at hown
    rw [htext, hown]
  have h := (pruneSnapshots_safe_iff (fun _ => .ok exampleListing) "/root/app-backup-1700000009"
    "app" 2 exampleListing rfl).mpr hsafe
  rw [hname] at h
  exact h fun _ => none

/-- A snapshot of the service `app-backup-db` stands beside one of `app`. -/
def sharedListing : Listing where
  entries := [⟨.text "app-backup-1700000009", true⟩, ⟨.text "app-backup-db-backup-1700000008", true⟩]
  distinct := by decide

theorem pruneSnapshots_removes_foreign : ¬ ∀ (list : List String → Except HostError Listing)
    (dir service : String) (keep : Nat) (listing : Listing), 1 ≤ keep →
    list ((parentDir dir).getD ["root"]) = .ok listing →
    ∀ shred, PrunesWell service (fileName dir) keep listing.entries
      (removedBy ⟨list, shred⟩ dir service keep) := by
  intro h
  have hwell := h (fun _ => .ok sharedListing) "/root/app-backup-1700000009" "app" 1 sharedListing
    (by decide) rfl fun _ => none
  have hremoved : removedBy ⟨fun _ => .ok sharedListing, fun _ => none⟩
      "/root/app-backup-1700000009" "app" 1 =
        [⟨.text "app-backup-db-backup-1700000008", true⟩] := by decide +kernel
  rw [hremoved] at hwell
  exact absurd (hwell.only _ List.mem_cons_self) (by decide +kernel)

end Shellflow
