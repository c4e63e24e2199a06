import Shellflow.AnswerReader

/-! A batch there and back: its script frames what the commands answer, and the reader takes the
frames apart again. -/
namespace Shellflow
open Shell Bytes

/-- One question of a batch. Its markers stand in single quotes, so the id has none. -/
structure Query where
  id : String
  cmd : Cmd
  quotable : '\'' ∉ id.toList

namespace Batch

/-- The batch that asks the questions one after another. -/
def asking (pid nanos : Nat) (queries : List Query) : Batch :=
  queries.foldl (fun b q => b.section q.id q.cmd.render) (.new pid nanos)

/-- The script, read as commands, one on each line. -/
def commands (b : Batch) (queries : List Query) : List Cmd :=
  .simple [litWord "set", litWord "+e"] :: queries.map fun q => sectionCmd b q.id q.cmd

end Batch

namespace AnswerReader

/-- Every expected answer has arrived. -/
def isComplete (b : Batch) (r : AnswerReader) : Bool := decide (b.count ≤ r.sections.length)

/-- The reading stops as soon as every answer is in. -/
def readUntilComplete (b : Batch) : AnswerReader → List String → AnswerReader
  | r, [] => r
  | r, line :: lines =>
    let r := pushLine b r line
    if r.isComplete b then r else readUntilComplete b r lines

end AnswerReader

/-- The answers read from the bytes of a response, up to the line that completes them. -/
def Batch.answersUntilComplete (b : Batch) (bytes : List UInt8) : List (String × Section) :=
  (AnswerReader.readUntilComplete b .new (BufRead.lines bytes)).finish

/-- The lines of a script, run one after another. -/
def ScriptEnds {W : Type*} (tools : Tools W) (i : String) :
    List Cmd → Shell.State W → (Outcome W → Prop) → Prop
  | [], s, Q => Q ⟨s, [], .next⟩
  | c :: cs, s, Q => Ends tools c i s fun o =>
      o.flow = .next ∧ ScriptEnds tools i cs o.state fun r => Q (r.after o.out)

/-- What a command prints on either stream. -/
def printed (out : Chunks) : String := out.foldr (fun c text => c.2 ++ text) ""

/-- The shell behind a section: the two variables, the world the command left, and a status of
zero. -/
def answeredState {W : Type*} (s : Shell.State W) (world : W) (a : Answer) : Shell.State W :=
  (((s.setWorld world).setVar "out" a.body).setVar "rc" (toString a.rc)).setStatus 0

/-- The commands answer this when they run in order: each with its status, and with what it prints
up to the newlines at the end. -/
def Replies {W : Type*} (tools : Tools W) : List Query → List Answer → Shell.State W → Prop
  | [], [], _ => True
  | q :: queries, a :: l, s => a.id = q.id ∧ Ends tools q.cmd "" s fun o =>
      o.state.status = a.rc ∧ trimNewlines (printed o.out) = a.body ∧
        Replies tools queries l (answeredState s o.state.world a)
  | _, _, _ => False

/-- The reader gets from the response the status and the body of every answer and nothing else,
whether it stops as soon as it is complete or reads to the end. -/
structure Batch.TripsBack (b : Batch) (l : List Answer) (bytes : List UInt8) : Prop where
  exact : ∀ id, (b.answers bytes).lookup id =
    (l.find? fun a => a.id == id).map fun a => ⟨a.rc, a.body⟩
  early : ∀ id, (b.answersUntilComplete bytes).lookup id = (b.answers bytes).lookup id

section Asking
variable {W : Type*} {tools : Tools W} {i : String} {s : Shell.State W}

/-- Sections added to a batch that is there already. -/
theorem section_foldl (b : Batch) (queries : List Query) :
    let asked := queries.foldl (fun b q => b.section q.id q.cmd.render) b
    asked.nonce = b.nonce ∧ asked.count = b.count + queries.length ∧
      asked.script = b.script ++ queries.foldr (fun q text =>
        (sectionCmd b q.id q.cmd).render ++ "\n" ++ text) "" := by
  induction queries generalizing b with
  | nil => simp
  | cons q queries ih =>
    obtain ⟨hnonce, hcount, hscript⟩ := ih (b.section q.id q.cmd.render)
    refine ⟨hnonce, hcount.trans ?_, hscript.trans ?_⟩
    · rw [List.length_cons, Nat.add_comm queries.length 1, ← Nat.add_assoc]
      rfl
    · rw [List.foldr_cons, render_sectionCmd, ← String.append_assoc]
      rfl

theorem asking_nonce (pid nanos : Nat) (queries : List Query) :
    (Batch.asking pid nanos queries).nonce = (Batch.new pid nanos).nonce :=
  (section_foldl _ queries).1

theorem asking_count (pid nanos : Nat) (queries : List Query) :
    (Batch.asking pid nanos queries).count = queries.length :=
  (section_foldl _ queries).2.1.trans (Nat.zero_add _)

theorem commands_congr {b b' : Batch} (h : b.nonce = b'.nonce) (queries : List Query) :
    b.commands queries = b'.commands queries := by
  simp [Batch.commands, sectionCmd, reportCmd, Batch.beg, Batch.fin, h]

/-- The script of the batch is the text of its commands. -/
theorem asking_script (pid nanos : Nat) (queries : List Query) :
    (Batch.asking pid nanos queries).script =
      ((Batch.asking pid nanos queries).commands queries).foldr
        (fun c text => c.render ++ "\n" ++ text) "" := by
  refine (section_foldl _ queries).2.2.trans ?_
  rw [commands_congr (asking_nonce pid nanos queries), Batch.commands, List.foldr_cons,
    List.foldr_map]
  rfl

theorem ScriptEnds.unique {cmds : List Cmd} {P Q : Outcome W → Prop}
    (h : ScriptEnds tools i cmds s P) (h' : ScriptEnds tools i cmds s Q) : ∃ o, P o ∧ Q o := by
  induction cmds generalizing s P Q with
  | nil => exact ⟨_, h, h'⟩
  | cons c cmds ih =>
    obtain ⟨n, o, -, ho, ho'⟩ := Ends.unique h h'
    obtain ⟨r, hr, hr'⟩ := ih ho.2 ho'.2
    exact ⟨_, hr, hr'⟩

theorem ScriptEnds.weaken {cmds : List Cmd} {P Q : Outcome W → Prop}
    (h : ScriptEnds tools i cmds s P) (hPQ : ∀ o, P o → Q o) : ScriptEnds tools i cmds s Q := by
  induction cmds generalizing s P Q with
  | nil => exact hPQ _ h
  | cons c cmds ih =>
    exact Ends.weaken h fun o ho => ⟨ho.1, ih ho.2 fun r hr => hPQ _ hr⟩

theorem textOf_merged (out : Chunks) :
    textOf .out ((outlets [.stdinNull, .errToOut]).route out) = printed out := by
  induction out with
  | nil => rfl
  | cons c out ih =>
    obtain ⟨stream, text⟩ := c
    cases stream <;> simp_all [printed, Outlets.route, outlets, Outlets.apply, textOf]

/-- A section frames what its command answers. -/
theorem sectionCmd_prints (b : Batch) {id : String} {cmd : Cmd} {P : Outcome W → Prop} (hs : NoFuns s)
    (h : Ends tools cmd "" s P) :
    Ends tools (sectionCmd b id cmd) i s fun o => o.flow = .next ∧ ∃ r, P r ∧
      o.state = answeredState s r.state.world
        ⟨id, r.state.status, trimNewlines (printed r.out)⟩ ∧
      textOf .out o.out =
        (Answer.mk id r.state.status (trimNewlines (printed r.out))).text b := by
  have hout : Ends tools
      (.assign "out" (.bare (.subst (.redirect (.group cmd) [.stdinNull, .errToOut])))) i s
      fun o => ∃ r, P r ∧ o = finish ((s.setWorld r.state.world).setVar "out"
        (trimNewlines (printed r.out))) r.state.status
        (dropStream .out ((outlets [.stdinNull, .errToOut]).route r.out)) := by
    refine Ends.assign_subst (Ends.redirect (Ends.group (h.weaken fun r hr => ⟨r, hr, ?_⟩)))
    rw [textOf_merged]
  refine Ends.seq (hout.weaken fun o ho => ?_)
  obtain ⟨r, hr, rfl⟩ := ho
  refine ⟨rfl, Ends.seq (Ends.assign (n := 0) rfl ⟨rfl, ?_⟩)⟩
  have hnone : NoFuns (answeredState s r.state.world
      ⟨id, r.state.status, trimNewlines (printed r.out)⟩) := hs
  refine (reportCmd_ends b id hnone).weaken fun q hq => ?_
  obtain ⟨hflow, hstate, htext⟩ := hq
  refine ⟨hflow, r, hr, hstate, ?_⟩
  have hsilent : textOf .out ((q.after []).after (dropStream .out
      ((outlets [.stdinNull, .errToOut]).route r.out))).out = textOf .out q.out := by
    rw [Outcome.after_out, textOf_append, textOf_dropStream, String.empty_append]
    rfl
  exact hsilent.trans htext

theorem answered_prints (b : Batch) {queries : List Query} {l : List Answer} (hs : NoFuns s)
    (h : Replies tools queries l s) :
    ScriptEnds tools i (queries.map fun q => sectionCmd b q.id q.cmd) s fun o =>
      (textOf .out o.out).toList = b.response l := by
  induction queries generalizing l s with
  | nil =>
    cases l with
    | nil => rfl
    | cons a l => exact h.elim
  | cons q queries ih =>
    cases l with
    | nil => exact h.elim
    | cons a l =>
      obtain ⟨hid, hends⟩ := h
      refine (sectionCmd_prints b hs hends).weaken fun o ho => ?_
      obtain ⟨hflow, r, ⟨hstatus, hbody, hrest⟩, hstate, htext⟩ := ho
      have ha : Answer.mk q.id r.state.status (trimNewlines (printed r.out)) = a := by
        rw [hstatus, hbody, ← hid]
      rw [ha] at hstate htext
      refine ⟨hflow, ?_⟩
      rw [hstate]
      refine (ih (s := answeredState s r.state.world a) hs hrest).weaken fun q hq => ?_
      have hboth : (textOf .out (q.after o.out).out).toList = (a.text b).toList ++ b.response l := by
        rw [Outcome.after_out, textOf_append, String.toList_append, htext, hq]
      exact hboth

/-- The script of a batch prints the answers, each in its frame. -/
theorem script_prints (b : Batch) {queries : List Query} {l : List Answer} (hs : NoFuns s)
    (h : Replies tools queries l (s.setStatus 0)) :
    ScriptEnds tools i (b.commands queries) s fun o =>
      (textOf .out o.out).toList = b.response l := by
  have hset : Ends tools (.simple [litWord "set", litWord "+e"]) i s
      fun o => o = finish s 0 [] := by
    have hwords : expandWords (eval tools 0) i [litWord "set", litWord "+e"] s =
        some ⟨["set", "+e"], s.world, [], none⟩ := by
      simp [litWord, expandWords, expandText, expandSegs, expandSeg, Expansion.join, Word.fields]
    exact Ends.plain hwords rfl rfl
  refine hset.weaken fun o ho => ?_
  subst ho
  exact ⟨rfl, answered_prints b (s := s.setStatus 0) hs h⟩

end Asking

section Reading

theorem length_overwrite_le {α β : Type*} [DecidableEq α] (l : List (α × β)) (p : α × β) :
    (Assoc.overwrite l p).length ≤ l.length + 1 := by
  induction l with
  | nil => exact Nat.le_refl 1
  | cons q l ih =>
    rw [Assoc.overwrite]
    split
    · exact Nat.le_succ _
    · exact Nat.succ_le_succ ih

variable {b : Batch} {a : Answer} {l : List Answer} {r : AnswerReader}
open AnswerReader

/-- What an answer has to meet so that its frame is lines of the response. -/
structure Framed (b : Batch) (a : Answer) : Prop where
  line : '\n' ∉ a.id.toList
  status : a.rc < 2147483648
  unmarked : ∀ line ∈ a.bodyLines, ¬ (b.beg "").toList <+: line ∧ ¬ (b.fin "").toList <+: line

/-- The lines of an answer as the reader gets them. -/
def Answer.fed (b : Batch) (a : Answer) : List String :=
  ((a.lines b).map Str.dropCr).map String.ofList

namespace Framed

theorem notMem_marks (b : Batch) {c : Char} (hc : Str.isWhitespace c = true) :
    c ∉ (b.beg "").toList ∧ c ∉ (b.fin "").toList := by
  constructor
  · intro h
    rw [GoodAnswer.mark_chars b c (List.mem_append_left _ h)] at hc
    cases hc
  · intro h
    rw [GoodAnswer.mark_chars b c (List.mem_append_right _ h)] at hc
    cases hc

theorem newline_notMem (h : Framed b a) : ∀ line ∈ a.lines b, '\n' ∉ line := by
  intro line hline
  have hmark := notMem_marks b (c := '\n') rfl
  rw [Answer.lines, List.mem_cons, List.mem_append, List.mem_singleton] at hline
  rcases hline with rfl | hbody | rfl
  · have hrc : '\n' ∉ (toString a.rc).toList := fun hc =>
      absurd (isWhitespace_of_mem_toString hc) (by decide)
    rw [Answer.header, b.beg_toList a.id, List.mem_append, List.mem_append, List.mem_cons]
    simp only [hmark.1, h.line, hrc, or_false, false_or]
    decide
  · exact Str.notMem_of_mem_splitCharFrom hbody
  · rw [b.fin_toList a.id]
    simp [hmark.2, h.line]

theorem dropCr_header (b : Batch) (a : Answer) : Str.dropCr (a.header b) = a.header b := by
  have hne := Str.toString_toList_ne_nil a.rc
  rw [Str.dropCr, if_neg]
  intro hlast
  rw [Answer.header, List.getLast?_append_of_ne_nil _ (List.cons_ne_nil _ _),
    List.getLast?_cons_of_ne_nil hne] at hlast
  exact absurd (isWhitespace_of_mem_toString (List.mem_of_getLast? hlast)) (by decide)

/-- A carriage return at the end of an end marker belongs to the id. -/
theorem dropCr_fin (b : Batch) (id : String) :
    String.ofList (Str.dropCr (b.fin id).toList) = b.fin (String.ofList (Str.dropCr id.toList)) := by
  have hmark := (notMem_marks b (c := '\r') rfl).2
  apply String.toList_inj.mp
  rw [String.toList_ofList, b.fin_toList id, b.fin_toList (String.ofList (Str.dropCr id.toList)),
    String.toList_ofList]
  by_cases hid : id.toList = []
  · rw [hid, List.append_nil, GoodAnswer.dropCr_of_notMem hmark]
    simp [Str.dropCr]
  · rw [Str.dropCr, Str.dropCr, List.getLast?_append_of_ne_nil _ hid]
    split
    · rw [List.dropLast_append_of_ne_nil hid]
    · rfl

theorem header_begin (h : Framed b a) :
    b.matchBegin (String.ofList (a.header b)) = some (a.id, (a.rc : Int)) := by
  have htext : String.ofList (a.header b) = b.beg a.id ++ (" " ++ toString a.rc) := by
    apply String.toList_inj.mp
    simp [Answer.header]
  rw [htext, matchBegin_beg b a.id h.status]

theorem bodyLine (h : Framed b a) : ∀ line ∈ (a.bodyLines.map Str.dropCr).map String.ofList,
    NoMarker b line := by
  intro line hline
  rw [List.map_map] at hline
  obtain ⟨body, hmem, rfl⟩ := List.mem_map.mp hline
  exact ⟨matchBegin_eq_none fun hbegin =>
      (h.unmarked body hmem).1 (hbegin.trans (Str.dropCr_prefix body)),
    matchEnd_eq_none fun hend => (h.unmarked body hmem).2 (hend.trans (Str.dropCr_prefix body))⟩

/-- The first line of an answer stores the one before it. -/
theorem push_header (h : Framed b a) : pushLine b r (String.ofList (Str.dropCr (a.header b))) =
    ⟨r.flush.sections, some (a.id, (a.rc : Int)), []⟩ := by
  have hflush : r.flush.body = [] := by
    unfold AnswerReader.flush
    split <;> rfl
  rw [dropCr_header, pushLine, h.header_begin, ← hflush]

/-- The end marker leaves the answer stored, or to be stored by whatever comes next. -/
theorem push_fin (b : Batch) (id : String) (rc : Int) (m : List (String × Section))
    (body : List String) :
    (pushLine b ⟨m, some (id, rc), body⟩ (String.ofList (Str.dropCr (b.fin id).toList))).flush =
        ⟨Assoc.overwrite m (id, ⟨rc, Str.join "\n" body⟩), none, []⟩ ∧
      (pushLine b ⟨m, some (id, rc), body⟩
        (String.ofList (Str.dropCr (b.fin id).toList))).sections.length ≤ m.length + 1 := by
  rw [dropCr_fin]
  generalize String.ofList (Str.dropCr id.toList) = id'
  have hbegin : b.matchBegin (b.fin id') = none := by
    have hnone := GoodAnswer.fin_noBegin b id'.toList List.prefix_rfl
    rwa [← b.fin_toList id', String.ofList_toList] at hnone
  by_cases hid : id = id'
  · subst hid
    rw [pushLine_end id rc body hbegin]
    exact ⟨rfl, length_overwrite_le m _⟩
  · have hkeep : pushLine b ⟨m, some (id, rc), body⟩ (b.fin id') = ⟨m, some (id, rc), body⟩ := by
      simp [pushLine, hbegin, matchEnd_fin, hid]
    rw [hkeep]
    exact ⟨rfl, Nat.le_succ _⟩

/-- An answer is stored by its own lines, or by what comes next. -/
theorem foldl_fed (h : Framed b a) : ((a.fed b).foldl (pushLine b) r).flush =
    ⟨Assoc.overwrite r.flush.sections a.stored, none, []⟩ := by
  rw [Answer.fed, Answer.lines, List.map_cons, List.map_cons, List.foldl_cons, push_header h,
    List.map_append, List.map_append, List.foldl_append, foldl_body h.bodyLine, List.nil_append]
  exact (push_fin b a.id a.rc _ _).1

end Framed

theorem foldl_response (hl : ∀ a ∈ l, Framed b a) :
    ((l.flatMap (Answer.fed b)).foldl (pushLine b) r).flush.sections =
      stored l r.flush.sections := by
  induction l generalizing r with
  | nil => rfl
  | cons a l ih =>
    obtain ⟨ha, hl⟩ := List.forall_mem_cons.mp hl
    rw [List.flatMap_cons, List.foldl_append, ih hl, ha.foldl_fed]
    rfl

theorem response_eq_unlines (b : Batch) (l : List Answer) :
    b.response l = unlines (l.flatMap (Answer.lines b)) := by
  rw [Batch.response, unlines, List.flatMap_assoc]
  exact List.flatMap_congr fun a _ => a.text_eq_unlines b

theorem lines_response (hl : ∀ a ∈ l, Framed b a) :
    BufRead.lines (encode (b.response l)) = l.flatMap (Answer.fed b) := by
  have hnewline : ∀ line ∈ l.flatMap (Answer.lines b), '\n' ∉ line := by
    intro line hline
    obtain ⟨a, ha, hmem⟩ := List.mem_flatMap.mp hline
    exact (hl a ha).newline_notMem line hmem
  have hdecode := BufRead.decode_encode (b.response l) BufRead.stuck_nil
  rw [List.append_nil] at hdecode
  have hlines := Str.linesChars_unlines hnewline []
  rw [List.append_nil, ← unlines, ← response_eq_unlines] at hlines
  rw [BufRead.lines, hdecode, List.isEmpty_nil, if_pos rfl, hlines]
  have hnil : Str.linesChars [] = [] := rfl
  rw [hnil, List.append_nil, List.map_flatMap, List.map_flatMap]
  rfl

/-- An incomplete batch reads the next line. -/
theorem readUntilComplete_cons {line : String} {lines : List String}
    (h : (pushLine b r line).sections.length < b.count) :
    readUntilComplete b r (line :: lines) = readUntilComplete b (pushLine b r line) lines := by
  simp [readUntilComplete, isComplete, h]

theorem readUntilComplete_body {m : List (String × Section)} {c : String × Int} {body : List String}
    {lines rest : List String} (hlines : ∀ line ∈ lines, NoMarker b line)
    (hm : m.length < b.count) :
    readUntilComplete b ⟨m, some c, body⟩ (lines ++ rest) =
      readUntilComplete b ⟨m, some c, body ++ lines⟩ rest := by
  induction lines generalizing body with
  | nil => simp
  | cons line lines ih =>
    obtain ⟨hline, hlines⟩ := List.forall_mem_cons.mp hlines
    have hpush := @pushLine_body b m _ c body hline
    rw [List.cons_append, readUntilComplete_cons (by rwa [hpush]), hpush, ih hlines]
    simp

/-- The batch is not complete before the last line of its last answer. -/
theorem readUntilComplete_response (hl : ∀ a ∈ l, Framed b a)
    (hcount : r.flush.sections.length + l.length ≤ b.count) :
    readUntilComplete b r (l.flatMap (Answer.fed b)) =
      (l.flatMap (Answer.fed b)).foldl (pushLine b) r := by
  induction l generalizing r with
  | nil => rfl
  | cons a l ih =>
    obtain ⟨ha, hl⟩ := List.forall_mem_cons.mp hl
    rw [List.length_cons] at hcount
    have hm : r.flush.sections.length < b.count := by omega
    have hopen : (pushLine b r (String.ofList (Str.dropCr (a.header b)))).sections.length < b.count := by
      rwa [ha.push_header]
    have hfin := Framed.push_fin b a.id a.rc r.flush.sections
      ((a.bodyLines.map Str.dropCr).map String.ofList)
    rw [List.flatMap_cons, Answer.fed, Answer.lines]
    simp only [List.map_cons, List.map_append, List.map_nil, List.cons_append, List.append_assoc,
      List.nil_append]
    rw [readUntilComplete_cons hopen, ha.push_header, readUntilComplete_body ha.bodyLine hm,
      List.foldl_cons, ha.push_header, List.foldl_append, foldl_body ha.bodyLine, List.foldl_cons,
      List.nil_append]
    cases l with
    | nil => simp [readUntilComplete]
    | cons a' l =>
      rw [List.length_cons] at hcount
      rw [readUntilComplete_cons (by omega)]
      apply ih hl
      have hlen := length_overwrite_le r.flush.sections
        (a.id, Section.mk a.rc (Str.join "\n" ((a.bodyLines.map Str.dropCr).map String.ofList)))
      rw [hfin.1, List.length_cons]
      dsimp only
      omega

/-- Every id the reader holds was on one line. -/
structure OneLineIds (r : AnswerReader) : Prop where
  stored : ∀ p ∈ r.sections, '\n' ∉ p.1.toList
  current : ∀ c, r.current = some c → '\n' ∉ c.1.toList

namespace OneLineIds

theorem flush (h : OneLineIds r) : OneLineIds r.flush := by
  unfold AnswerReader.flush
  split
  next id rc hcurrent =>
    refine ⟨fun p hp => ?_, nofun⟩
    cases Assoc.key_mem_overwrite hp with
    | inl hkey =>
      rw [hkey]
      exact h.current (id, rc) hcurrent
    | inr hkey =>
      obtain ⟨q, hq, hkey⟩ := List.mem_map.mp hkey
      rw [← hkey]
      exact h.stored q hq
  next => exact ⟨h.stored, h.current⟩

theorem matchBegin_id {line : String} {c : String × Int} (hline : '\n' ∉ line.toList)
    (h : b.matchBegin line = some c) : '\n' ∉ c.1.toList := by
  obtain ⟨rest, hrest, h⟩ := Option.bind_eq_some_iff.mp h
  obtain ⟨p, hp, h⟩ := Option.bind_eq_some_iff.mp h
  obtain ⟨rc, -, rfl⟩ := Option.map_eq_some_iff.mp h
  intro hmem
  apply hline
  rw [Str.stripPrefix_eq_some hrest, Str.rsplitOnceChar_eq_some hp]
  simp only [String.toList_append, List.mem_append]
  exact .inr (.inl hmem)

theorem pushLine (h : OneLineIds r) {line : String} (hline : '\n' ∉ line.toList) :
    OneLineIds (AnswerReader.pushLine b r line) := by
  unfold AnswerReader.pushLine
  split
  next c hbegin =>
    refine ⟨h.flush.stored, fun c' hc' => ?_⟩
    cases hc'
    exact matchBegin_id hline hbegin
  next =>
    split
    · split
      · exact h.flush
      · exact h
    · split
      · exact ⟨h.stored, h.current⟩
      · exact h

theorem foldl (h : OneLineIds r) {lines : List String} (hlines : ∀ line ∈ lines, '\n' ∉ line.toList) :
    OneLineIds (lines.foldl (AnswerReader.pushLine b) r) := by
  induction lines generalizing r with
  | nil => exact h
  | cons line lines ih =>
    obtain ⟨hline, hlines⟩ := List.forall_mem_cons.mp hlines
    exact ih (h.pushLine hline) hlines

end OneLineIds

/-- An id that the reader reports has no newline. -/
theorem answers_oneLine {bytes : List UInt8} {id : String} {sec : Section}
    (h : (b.answers bytes).lookup id = some sec) : '\n' ∉ id.toList := by
  have hlines : ∀ line ∈ BufRead.lines bytes, '\n' ∉ line.toList := by
    intro line hline
    obtain ⟨chars, hchars, rfl⟩ := List.mem_map.mp hline
    rw [String.toList_ofList]
    exact Str.notMem_of_mem_linesFrom List.not_mem_nil hchars
  have hnew : OneLineIds .new := ⟨nofun, nofun⟩
  have hclean : ∀ p ∈ b.answers bytes, '\n' ∉ p.1.toList :=
    (hnew.foldl (b := b) hlines).flush.stored
  obtain ⟨before, after, hsplit, -⟩ := List.lookup_eq_some_iff.mp h
  rw [hsplit] at hclean
  exact hclean (id, sec) (List.mem_append_right before List.mem_cons_self)

theorem lookup_stored_eq (hids : (l.map Answer.id).Nodup) (id : String) :
    (stored l []).lookup id = (l.find? fun a => a.id == id).map Answer.received := by
  cases hfind : l.find? fun a => a.id == id with
  | some a =>
    have hid : a.id = id := by simpa using List.find?_some hfind
    rw [Option.map_some, lookup_stored hids]
    exact ⟨a, List.mem_of_find?_eq_some hfind, hid, rfl⟩
  | none =>
    cases hlookup : (stored l []).lookup id with
    | none => rfl
    | some sec =>
      obtain ⟨a, ha, hid, -⟩ := (lookup_stored hids).mp hlookup
      exact absurd (by simpa using hid) (List.find?_eq_none.mp hfind a ha)

theorem find_id (hids : (l.map Answer.id).Nodup) (ha : a ∈ l) :
    l.find? (fun c => c.id == a.id) = some a := by
  cases hfind : l.find? fun c => c.id == a.id with
  | none => exact absurd (by simp) (List.find?_eq_none.mp hfind a ha)
  | some c =>
    have hid : c.id = a.id := by simpa using List.find?_some hfind
    rw [List.inj_on_of_nodup_map hids (List.mem_of_find?_eq_some hfind) ha hid]

/-- A response comes back exactly when each id is on one line and no line of a body ends in a
carriage return. -/
theorem tripsBack_iff (hids : (l.map Answer.id).Nodup) (hcount : b.count = l.length)
    (hstatus : ∀ a ∈ l, a.rc < 2147483648)
    (hbody : ∀ a ∈ l, ∀ line ∈ a.bodyLines,
      ¬ (b.beg "").toList <+: line ∧ ¬ (b.fin "").toList <+: line) :
    b.TripsBack l (encode (b.response l)) ↔
      ∀ a ∈ l, '\n' ∉ a.id.toList ∧ ∀ line ∈ a.bodyLines, line.getLast? ≠ some '\r' := by
  have hanswers : (∀ a ∈ l, '\n' ∉ a.id.toList) →
      b.answers (encode (b.response l)) = stored l [] := by
    intro hline
    have hframed : ∀ a ∈ l, Framed b a := fun a ha => ⟨hline a ha, hstatus a ha, hbody a ha⟩
    rw [Batch.answers, lines_response hframed]
    exact foldl_response hframed
  constructor
  · intro h
    have hfound : ∀ a ∈ l, (b.answers (encode (b.response l))).lookup a.id =
        some ⟨a.rc, a.body⟩ := by
      intro a ha
      rw [h.exact, find_id hids ha, Option.map_some]
    have hline : ∀ a ∈ l, '\n' ∉ a.id.toList := fun a ha => answers_oneLine (hfound a ha)
    intro a ha
    refine ⟨hline a ha, (received_eq a).mp ?_⟩
    have hstored := hfound a ha
    rw [hanswers hline, lookup_stored_eq hids, find_id hids ha, Option.map_some, Option.some_inj]
      at hstored
    exact hstored
  · intro h
    have hline : ∀ a ∈ l, '\n' ∉ a.id.toList := fun a ha => (h a ha).1
    have hframed : ∀ a ∈ l, Framed b a := fun a ha => ⟨hline a ha, hstatus a ha, hbody a ha⟩
    refine ⟨fun id => ?_, fun id => ?_⟩
    · rw [hanswers hline, lookup_stored_eq hids]
      refine Option.map_congr fun a ha => ?_
      exact (received_eq a).mpr (h a (List.mem_of_find?_eq_some ha)).2
    · rw [Batch.answersUntilComplete, Batch.answers, lines_response hframed,
        readUntilComplete_response hframed]
      rw [hcount]
      exact Nat.le_of_eq (Nat.zero_add _)

end Reading

section Batches
variable {W : Type*} {tools : Tools W} {i : String} {s : Shell.State W}

theorem answered_ids {queries : List Query} {l : List Answer} (h : Replies tools queries l s) :
    l.map Answer.id = queries.map Query.id := by
  induction queries generalizing l s with
  | nil =>
    cases l with
    | nil => rfl
    | cons a l => exact h.elim
  | cons q queries ih =>
    cases l with
    | nil => exact h.elim
    | cons a l =>
      obtain ⟨hid, n, o, -, -, -, hrest⟩ := h
      rw [List.map_cons, List.map_cons, hid, ih hrest]

/-- What the script of a batch prints, whatever is asked of it. -/
theorem script_text (b : Batch) {queries : List Query} {l : List Answer} (hs : NoFuns s)
    (h : Replies tools queries l (s.setStatus 0)) (Q : List Char → Prop) :
    ScriptEnds tools i (b.commands queries) s (fun o => Q (textOf .out o.out).toList) ↔
      Q (b.response l) := by
  have hprints := script_prints (i := i) b hs h
  constructor
  · intro hQ
    obtain ⟨o, htext, hQ⟩ := hprints.unique hQ
    rwa [htext] at hQ
  · intro hQ
    refine hprints.weaken fun o htext => ?_
    rwa [htext]

/-- The script of a batch is the text of its commands, and what they print is read back as the
status and the body of each answer, early or at the end, exactly when each id is on one line and no
line of a body ends in a carriage return. -/
theorem batch_tripsBack_iff (pid nanos : Nat) {queries : List Query} {l : List Answer}
    (hs : NoFuns s) (hanswers : Replies tools queries l (s.setStatus 0))
    (hids : (queries.map Query.id).Nodup) (hstatus : ∀ a ∈ l, a.rc < 2147483648)
    (hbody : ∀ a ∈ l, ∀ line ∈ a.bodyLines,
      ¬ ((Batch.asking pid nanos queries).beg "").toList <+: line ∧
        ¬ ((Batch.asking pid nanos queries).fin "").toList <+: line) :
    (Batch.asking pid nanos queries).script =
        ((Batch.asking pid nanos queries).commands queries).foldr
          (fun c text => c.render ++ "\n" ++ text) "" ∧
      (ScriptEnds tools i ((Batch.asking pid nanos queries).commands queries) s
          (fun o => (Batch.asking pid nanos queries).TripsBack l
            (encode (textOf .out o.out).toList)) ↔
        ∀ a ∈ l, '\n' ∉ a.id.toList ∧ ∀ line ∈ a.bodyLines, line.getLast? ≠ some '\r') := by
  have hsame := answered_ids hanswers
  have hcount : (Batch.asking pid nanos queries).count = l.length := by
    rw [asking_count, ← List.length_map Query.id, ← hsame, List.length_map]
  refine ⟨asking_script pid nanos queries, ?_⟩
  refine (script_text _ hs hanswers fun text =>
    (Batch.asking pid nanos queries).TripsBack l (encode text)).trans ?_
  exact tripsBack_iff (hsame ▸ hids) hcount hstatus hbody

/-- A query that prints one line. -/
def echoQuery (line : String) : Query :=
  ⟨"unit_state", .simple [litWord "echo", .joined [.single line]], by decide⟩

theorem answered_echo (hs : NoFuns s) (line : String)
    (hline : trimNewlines (line ++ "\n") = line) :
    Replies tools [echoQuery line] [⟨"unit_state", 0, line⟩] s := by
  have hwords : expandWords (eval tools 0) "" [litWord "echo", .joined [.single line]] s =
      some ⟨["echo", line], s.world, [], none⟩ := by
    simp [litWord, expandWords, expandText, expandSegs, expandSeg, Expansion.join, Word.fields]
  have hrun : runSimple tools (eval tools 0) ["echo", line] "" s =
      some (finish s 0 [(.out, line ++ "\n")]) := by
    simp [runSimple, hs "echo", runPlain, Str.join]
  refine ⟨rfl, Ends.plain hwords hrun ⟨rfl, ?_, trivial⟩⟩
  rw [finish, printed, List.foldr_cons, List.foldr_nil, String.append_empty]
  exact hline

/-- A shell without functions, on a host without programs. -/
def bareShell : Shell.State Unit := ⟨fun _ => none, [], fun _ => none, 0, ()⟩

def noTools : Tools Unit := fun _ _ _ => ⟨(), [], 127⟩

theorem batch_tripsBack_active :
    ScriptEnds noTools "" ((Batch.asking 4660 86 [echoQuery "active"]).commands [echoQuery "active"])
      bareShell fun o => (Batch.asking 4660 86 [echoQuery "active"]).TripsBack
        [⟨"unit_state", 0, "active"⟩] (encode (textOf .out o.out).toList) := by
  have hfresh : NoFuns (bareShell.setStatus 0) := fun _ => rfl
  refine (batch_tripsBack_iff 4660 86 (fun _ => rfl)
    (answered_echo hfresh "active" (by decide +kernel)) (by decide) (by decide)
    (by decide +kernel)).2.mpr ?_
  decide +kernel

/-- A line that ends in a carriage return comes back without it. -/
theorem batch_drops_a_carriage_return :
    ¬ ∀ (queries : List Query) (l : List Answer),
      Replies noTools queries l (bareShell.setStatus 0) → (queries.map Query.id).Nodup →
      (∀ a ∈ l, a.rc < 2147483648) →
      (∀ a ∈ l, ∀ line ∈ a.bodyLines,
        ¬ ((Batch.asking 4660 86 queries).beg "").toList <+: line ∧
          ¬ ((Batch.asking 4660 86 queries).fin "").toList <+: line) →
      ScriptEnds noTools "" ((Batch.asking 4660 86 queries).commands queries) bareShell fun o =>
        (Batch.asking 4660 86 queries).TripsBack l (encode (textOf .out o.out).toList) := by
  intro hall
  have hfresh : NoFuns (bareShell.setStatus 0) := fun _ => rfl
  have hanswers := @answered_echo _ noTools _ hfresh "active\r" (by decide +kernel)
  have htrips := hall [echoQuery "active\r"] [⟨"unit_state", 0, "active\r"⟩] hanswers (by decide)
    (by decide) (by decide +kernel)
  obtain ⟨o, htext, hback⟩ := (script_prints _ (fun _ => rfl) hanswers).unique htrips
  have hbad := hback.exact "unit_state"
  rw [htext] at hbad
  revert hbad
  decide +kernel

end Batches

end Shellflow
