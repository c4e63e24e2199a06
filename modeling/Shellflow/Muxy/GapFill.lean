import Shellflow.Muxy.Lines
import Shellflow.Muxy.Outcome

/-! Gap filling: the rows a merged frame skipped are read back from the server's history, page
by page from the newest end, and the wanted window is cut out of what was fetched. -/
namespace Shellflow
open Slice
variable {ρ : Type}

structure HistoryPage (ρ : Type) where
  rows : List ρ
  totalRows : Nat
  next : Option Nat

inductive PumpMsg (ρ : Type)
  | lines (rows : List ρ)
  | tuiRedraw
  | budgetExceeded
  | ended (reason : ExitReason)
  | disconnected
deriving DecidableEq

structure ChannelState (ρ : Type) where
  asm : LineAssembler ρ
  budgetWarned : Bool

def maxLinesPerMsg : Nat := 500

/-- `cur` is the chunk being filled. -/
def chunksFrom (size : Nat) (cur : List ρ) : List ρ → List (List ρ)
  | [] => if cur.isEmpty then [] else [cur]
  | row :: rest =>
    if cur.length + 1 = size then (cur ++ [row]) :: chunksFrom size [] rest
    else chunksFrom size (cur ++ [row]) rest

def forwardLines (lines : List ρ) : List (PumpMsg ρ) :=
  (chunksFrom maxLinesPerMsg [] lines).map PumpMsg.lines

/-- The length test `pages.len() > 64` comes after the push, so one more page gets in. -/
def maxPages : Nat := 65

/-- `client` answers the request with the given number for the given cursor; `left` more pages
may be read, and `fetched` rows are there already. -/
def fetchPages (client : Nat → Nat → Option (HistoryPage ρ)) (missing : Nat) :
    Nat → Nat → Nat → List (HistoryPage ρ)
  | 0, _, _ => []
  | left + 1, fetched, before =>
    if missing ≤ fetched then []
    else
      match client (maxPages - (left + 1)) before with
      | none => []
      | some page =>
        if page.rows.isEmpty then []
        else
          page :: match page.next with
            | none => []
            | some next => fetchPages client missing left (fetched + page.rows.length) next

/-- The fetched rows, oldest first. -/
def pageRows (pages : List (HistoryPage ρ)) : List ρ :=
  (pages.reverse.map HistoryPage.rows).flatten

/-- The rows of the window, indexed from the newest end of the first page. -/
def gapRows (client : Nat → Nat → Option (HistoryPage ρ)) (missing historyAfter : Nat) :
    List ρ :=
  let pages := fetchPages client missing maxPages 0 0
  let anchor := (pages.head?.map HistoryPage.totalRows).getD historyAfter
  let all := pageRows pages
  let firstIndex := anchor - all.length
  let wantStart := historyAfter - missing
  ((all.zipIdx firstIndex).filter fun p => wantStart ≤ p.2 ∧ p.2 < historyAfter).map Prod.fst

def forwardPush [TextRow ρ] (client : Nat → Nat → Option (HistoryPage ρ))
    (state : ChannelState ρ) (push : Push ρ) (historyAfter : Nat) :
    ChannelState ρ × List (PumpMsg ρ) :=
  if push.tuiRedraw then (state, [.tuiRedraw])
  else if push.missing = 0 then (state, forwardLines push.lines)
  else
    let gap := gapRows client push.missing historyAfter
    let (asm, rows) := state.asm.feedGap gap
    let sent := forwardLines push.lines ++ forwardLines rows
    if gap.length < push.missing ∧ state.budgetWarned = false then
      (⟨asm, true⟩, sent ++ [.budgetExceeded])
    else (⟨asm, state.budgetWarned⟩, sent)

/-- A server's scrollback while a gap is filled: every row that ever entered it, the first one
still retained, and how many rows had entered when each request was answered. -/
structure Scrollback (ρ : Type) where
  rows : List ρ
  lo : Nat
  pageSize : Nat
  total : Nat → Nat
  pageSize_pos : 0 < pageSize
  lo_le : lo ≤ total 0
  total_le : total 0 ≤ rows.length

namespace Scrollback

/-- The page that ends before the cursor; the cursor `0` stands for the newest end. -/
def page (s : Scrollback ρ) (request before : Nat) : Option (HistoryPage ρ) :=
  let stop := if before = 0 then s.total request else before
  let start := max s.lo (stop - s.pageSize)
  some ⟨slice start stop s.rows, s.total request, if s.lo < start then some start else none⟩

/-- The rows of a window that can still be had. -/
def retained (s : Scrollback ρ) (start stop : Nat) : List ρ := slice (max s.lo start) stop s.rows

/-- How many pages cover `count` rows. -/
def pagesFor (s : Scrollback ρ) (count : Nat) : Nat := (count + s.pageSize - 1) / s.pageSize

end Scrollback

theorem flatten_chunksFrom (size : Nat) (cur lines : List ρ) :
    (chunksFrom size cur lines).flatten = cur ++ lines := by
  induction lines generalizing cur with
  | nil => cases cur <;> simp [chunksFrom]
  | cons row rest ih =>
    rw [chunksFrom]
    split
    · simp [ih]
    · simp [ih]

/-- The rows a list of messages carries, in order. -/
def sentRows (msgs : List (PumpMsg ρ)) : List ρ :=
  msgs.flatMap fun msg => match msg with
    | .lines rows => rows
    | _ => []

@[simp] theorem sentRows_append (msgs msgs' : List (PumpMsg ρ)) :
    sentRows (msgs ++ msgs') = sentRows msgs ++ sentRows msgs' := by
  simp [sentRows]

@[simp] theorem sentRows_forwardLines (lines : List ρ) : sentRows (forwardLines lines) = lines := by
  have hchunks := flatten_chunksFrom maxLinesPerMsg [] lines
  rw [List.nil_append] at hchunks
  rw [sentRows, forwardLines, List.flatMap_map]
  exact List.flatMap_id.trans hchunks

theorem pageRows_cons (page : HistoryPage ρ) (pages : List (HistoryPage ρ)) :
    pageRows (page :: pages) = pageRows pages ++ page.rows := by
  simp [pageRows]

namespace Scrollback
variable (s : Scrollback ρ)

theorem pagesFor_zero : s.pagesFor 0 = 0 := by
  have hpos := s.pageSize_pos
  exact Nat.div_eq_of_lt (by omega)

theorem pagesFor_succ {count : Nat} (h : 0 < count) :
    s.pagesFor count = s.pagesFor (count - s.pageSize) + 1 := by
  have hpos := s.pageSize_pos
  by_cases hle : count ≤ s.pageSize
  · have hzero : count - s.pageSize = 0 := by omega
    have hone : (count + s.pageSize - 1) / s.pageSize = 1 :=
      Nat.div_eq_of_lt_le (by omega) (by omega)
    rw [hzero, pagesFor_zero, pagesFor, hone]
  · have hsplit : count + s.pageSize - 1 = (count - s.pageSize + s.pageSize - 1) + s.pageSize := by
      omega
    rw [pagesFor, pagesFor, hsplit, Nat.add_div_right _ hpos]

/-- The oldest row read when `left` pages may be read below `stop`. -/
def lowest (left count stop : Nat) : Nat :=
  max s.lo (stop - min left (s.pagesFor count) * s.pageSize)

theorem lowest_succ {left count stop : Nat} (hcount : 0 < count) :
    s.lowest (left + 1) count stop =
      s.lowest left (count - s.pageSize) (stop - s.pageSize) := by
  rw [lowest, lowest, s.pagesFor_succ hcount, Nat.add_min_add_right, Nat.succ_mul, Nat.sub_sub,
    Nat.add_comm s.pageSize]

theorem lowest_last {left count stop : Nat} (hcount : 0 < count)
    (hlast : ¬s.lo < max s.lo (stop - s.pageSize)) : s.lowest (left + 1) count stop = s.lo := by
  have hone : s.pageSize ≤ min (left + 1) (s.pagesFor count) * s.pageSize := by
    rw [s.pagesFor_succ hcount, Nat.add_min_add_right, Nat.succ_mul]
    exact Nat.le_add_left _ _
  rw [lowest]
  omega

/-- One request: the page that ends at `stop`, and the older ones after it. -/
theorem fetchPages_step {missing fetched stop : Nat} (left before : Nat)
    (hbefore : (if before = 0 then s.total (maxPages - (left + 1)) else before) = stop)
    (hmissing : fetched < missing) (hlo : s.lo < stop) (hstop : stop ≤ s.rows.length) :
    ∃ page, page.rows = slice (max s.lo (stop - s.pageSize)) stop s.rows ∧
      page.totalRows = s.total (maxPages - (left + 1)) ∧
      fetchPages s.page missing (left + 1) fetched before =
        page :: if s.lo < stop - s.pageSize then
          fetchPages s.page missing left (fetched + s.pageSize) (stop - s.pageSize) else [] := by
  have hpos := s.pageSize_pos
  have hlen : (slice (max s.lo (stop - s.pageSize)) stop s.rows).length =
      stop - max s.lo (stop - s.pageSize) := by
    rw [length_slice]
    omega
  have hne : ¬(slice (max s.lo (stop - s.pageSize)) stop s.rows).isEmpty = true := by
    rw [List.isEmpty_iff, ← List.length_eq_zero_iff, hlen]
    omega
  refine ⟨⟨slice (max s.lo (stop - s.pageSize)) stop s.rows, s.total (maxPages - (left + 1)),
    if s.lo < max s.lo (stop - s.pageSize) then some (max s.lo (stop - s.pageSize)) else none⟩,
    rfl, rfl, ?_⟩
  rw [fetchPages, if_neg (by omega), page]
  simp only [hbefore]
  rw [if_neg hne]
  by_cases hmore : s.lo < stop - s.pageSize
  · have hstart : max s.lo (stop - s.pageSize) = stop - s.pageSize := by omega
    have hread : (slice (stop - s.pageSize) stop s.rows).length = s.pageSize := by
      rw [← hstart, hlen]
      omega
    rw [hstart, if_pos hmore, if_pos hmore, hread]
  · have hlast : ¬s.lo < max s.lo (stop - s.pageSize) := by omega
    rw [if_neg hmore, if_neg hlast]

/-- What `left` pages below `stop` hold. -/
theorem pageRows_fetchPages {missing left before stop : Nat} (fetched : Nat)
    (hbefore : (if before = 0 then s.total (maxPages - left) else before) = stop)
    (hlo : s.lo < stop) (hstop : stop ≤ s.rows.length) :
    pageRows (fetchPages s.page missing left fetched before) =
      slice (s.lowest left (missing - fetched) stop) stop s.rows := by
  induction left generalizing fetched before stop with
  | zero =>
    rw [fetchPages, lowest, Nat.zero_min, Nat.zero_mul, slice_eq_nil _ (by omega)]
    rfl
  | succ left ih =>
    by_cases hdone : missing ≤ fetched
    · have hnone : missing - fetched = 0 := by omega
      rw [fetchPages, if_pos hdone, hnone, lowest, pagesFor_zero, Nat.min_zero, Nat.zero_mul,
        slice_eq_nil _ (by omega)]
      rfl
    · have hcount : 0 < missing - fetched := by omega
      have hpos := s.pageSize_pos
      obtain ⟨page, hrows, -, hfetch⟩ := s.fetchPages_step left before hbefore (Nat.lt_of_not_le hdone) hlo hstop
      rw [hfetch, pageRows_cons, hrows]
      by_cases hmore : s.lo < stop - s.pageSize
      · have hstart : max s.lo (stop - s.pageSize) = stop - s.pageSize := by omega
        have hnext : (if stop - s.pageSize = 0 then s.total (maxPages - left)
            else stop - s.pageSize) = stop - s.pageSize := if_neg (by omega)
        have htail := ih (fetched + s.pageSize) hnext hmore (by omega)
        rw [if_pos hmore, hstart, htail, s.lowest_succ hcount, Nat.sub_sub missing]
        refine slice_append_slice _ ?_ (Nat.sub_le _ _)
        rw [lowest]
        omega
      · have hstart : max s.lo (stop - s.pageSize) = s.lo := by omega
        rw [if_neg hmore, s.lowest_last hcount (by omega), hstart]
        rfl

/-- The window that is cut out of the fetched rows. -/
theorem gapRows_eq {missing historyAfter : Nat} (hH : historyAfter ≤ s.total 0) :
    gapRows s.page missing historyAfter =
      slice (max (s.lowest maxPages missing (s.total 0)) (historyAfter - missing)) historyAfter
        s.rows := by
  have hlow : s.lo ≤ s.lowest maxPages missing (s.total 0) := Nat.le_max_left _ _
  by_cases hnone : missing = 0 ∨ s.total 0 = s.lo
  · have hfetch : fetchPages s.page missing maxPages 0 0 = [] := by
      rw [maxPages, fetchPages]
      by_cases hmissing : missing = 0
      · rw [if_pos (by omega)]
      · have hempty : s.total (maxPages - (64 + 1)) = s.lo := hnone.resolve_left hmissing
        rw [if_neg (by omega), page]
        simp only [if_true]
        rw [slice_eq_nil _ (by omega)]
        rfl
    have hwindow : historyAfter ≤
        max (s.lowest maxPages missing (s.total 0)) (historyAfter - missing) := by omega
    rw [gapRows, hfetch, slice_eq_nil _ hwindow]
    rfl
  · have hlo : s.lo < s.total 0 := by
      have hle := s.lo_le
      omega
    obtain ⟨page, -, htotal, hfetch⟩ := s.fetchPages_step 64 0 rfl
      (Nat.pos_of_ne_zero fun h => hnone (Or.inl h)) hlo s.total_le
    have hrows : pageRows (fetchPages s.page missing maxPages 0 0) =
        slice (s.lowest maxPages missing (s.total 0)) (s.total 0) s.rows :=
      s.pageRows_fetchPages 0 rfl hlo s.total_le
    have hlowT : s.lowest maxPages missing (s.total 0) ≤ s.total 0 := by
      rw [lowest]
      omega
    have hT := s.total_le
    have hanchor : ((fetchPages s.page missing maxPages 0 0).head?.map
        HistoryPage.totalRows).getD historyAfter = s.total 0 := by
      have hpages : (fetchPages s.page missing maxPages 0 0).head? = some page :=
        congrArg List.head? hfetch
      rw [hpages]
      exact htotal
    have hread : s.total 0 - (min (s.total 0) s.rows.length -
        s.lowest maxPages missing (s.total 0)) = s.lowest maxPages missing (s.total 0) := by omega
    simp only [gapRows, hanchor, hrows, length_slice, hread]
    rw [filter_zipIdx, slice_slice]
    by_cases hlate : s.lowest maxPages missing (s.total 0) ≤ historyAfter
    · congr 1 <;> omega
    · rw [slice_eq_nil _ (by omega), slice_eq_nil _ (by omega)]

/-- How many rows of a window are still retained. -/
def retainedCount (missing historyAfter : Nat) : Nat :=
  historyAfter - max s.lo (historyAfter - missing)

theorem length_retained {missing historyAfter : Nat} (hH : historyAfter ≤ s.total 0) :
    (s.retained (historyAfter - missing) historyAfter).length =
      s.retainedCount missing historyAfter := by
  have hT := s.total_le
  rw [retained, length_slice, retainedCount]
  omega

/-- The walk starts at the newest end, so late rows use up part of what it reads. -/
theorem gapRows_eq_retained_iff {missing historyAfter : Nat} (hH : historyAfter ≤ s.total 0) :
    gapRows s.page missing historyAfter = s.retained (historyAfter - missing) historyAfter ↔
      s.retainedCount missing historyAfter = 0 ∨
        (s.total 0 - historyAfter) + s.retainedCount missing historyAfter ≤
          min maxPages (s.pagesFor missing) * s.pageSize := by
  have hT := s.total_le
  have hlow : s.lo ≤ s.lowest maxPages missing (s.total 0) := Nat.le_max_left _ _
  rw [s.gapRows_eq hH, retained, retainedCount]
  constructor
  · intro heq
    have hlen := congrArg List.length heq
    rw [length_slice, length_slice] at hlen
    rw [lowest] at hlen
    omega
  · intro hcond
    by_cases hnone : historyAfter - max s.lo (historyAfter - missing) = 0
    · rw [slice_eq_nil _ (by omega), slice_eq_nil _ (by omega)]
    · have hcover := hcond.resolve_left hnone
      have hstart : max (s.lowest maxPages missing (s.total 0)) (historyAfter - missing) =
          max s.lo (historyAfter - missing) := by
        rw [lowest]
        omega
      rw [hstart]

end Scrollback

/-- What a gap fill owes: the retained rows of the window, and a budget message only when some
row of the window is gone. -/
structure GapFillExact [TextRow ρ] (s : Scrollback ρ) (state : ChannelState ρ) (push : Push ρ)
    (historyAfter : Nat) : Prop where
  fed : gapRows s.page push.missing historyAfter =
    s.retained (historyAfter - push.missing) historyAfter
  budget : PumpMsg.budgetExceeded ∈ (forwardPush s.page state push historyAfter).2 →
    historyAfter - push.missing < s.lo

theorem budgetExceeded_not_mem_forwardLines (lines : List ρ) :
    PumpMsg.budgetExceeded ∉ forwardLines lines := by
  simp [forwardLines]

/-- The message is sent when the window came back short and no warning went out before. -/
theorem budgetExceeded_mem_forwardPush [TextRow ρ]
    (client : Nat → Nat → Option (HistoryPage ρ)) (state : ChannelState ρ) (push : Push ρ)
    (historyAfter : Nat) :
    PumpMsg.budgetExceeded ∈ (forwardPush client state push historyAfter).2 ↔
      push.tuiRedraw = false ∧ push.missing ≠ 0 ∧ state.budgetWarned = false ∧
        (gapRows client push.missing historyAfter).length < push.missing := by
  unfold forwardPush
  by_cases hredraw : push.tuiRedraw = true
  · simp [hredraw]
  · rw [if_neg hredraw]
    by_cases hmissing : push.missing = 0
    · simp [hmissing, budgetExceeded_not_mem_forwardLines]
    · rw [if_neg hmissing]
      simp only
      split
      · next hshort => simp [hredraw, hmissing, hshort]
      · next hshort =>
        simp only [List.mem_append, budgetExceeded_not_mem_forwardLines, or_self, false_iff]
        tauto

/-- Two retained rows; the second one arrived after the frame that misses the first. -/
def oneLateRow : Scrollback String where
  rows := ["missed", "late"]
  lo := 0
  pageSize := 1
  total _ := 2
  pageSize_pos := Nat.one_pos
  lo_le := Nat.zero_le 2
  total_le := le_refl 2

/-- The assembler never asks for more rows than the history has. -/
theorem LineAssembler.push_missing_le [TextRow ρ] (asm : LineAssembler ρ) (screen : Screen ρ) :
    (asm.push screen).2.missing ≤ screen.historyTotal := by
  unfold push
  split
  · exact Nat.zero_le _
  · split
    · exact Nat.zero_le _
    · unfold pushScroll
      dsimp only
      split
      · exact (Nat.sub_le _ _).trans (Nat.sub_le _ _)
      · split
        · exact (Nat.sub_le _ _).trans (Nat.sub_le _ _)
        · split <;> exact (Nat.sub_le _ _).trans (Nat.sub_le _ _)

end Shellflow
