import Shellflow.Rbatch
import Shellflow.Service.Manifest

/-! What the audit of a host asks: the sections of its one batch, and the ids under which the check
of a unit reads them. -/
namespace Shellflow.ServiceCheck

/-- A section's id and its command. -/
abbrev Question := String × String

def sectionId (unit kind : String) : String := unit ++ "_" ++ kind

section Commands

def isActiveCommand (name : String) : String := "systemctl is-active " ++ shellQuoteSingle name

def socketLoadCommand (socketUnit : String) : String :=
  "systemctl show " ++ shellQuoteSingle socketUnit ++ " -p LoadState --value"

def propsCommand (unit : String) : String :=
  "sudo -n systemctl show " ++ shellQuoteSingle unit ++ " -p " ++
    "ExecStart,Environment,EnvironmentFile,LoadCredentialEncrypted,ImportCredential," ++
    "User,Type,NotifyAccess,WatchdogUSec,TimeoutStartSec,TimeoutStartUSec," ++
    "ExecReload,StatusText,ActiveState,Result,Restart,RestartUSec," ++
    "StartLimitBurst,StartLimitIntervalUSec,ProtectHome,ReadWritePaths," ++
    "RuntimeDirectory,NoNewPrivileges,ProtectSystem,PrivateTmp"

def unitFileCommand (unit : String) : String := "sudo -n systemctl cat " ++ shellQuoteSingle unit

def credstoreListing (service : String) : String :=
  "sudo -n ls -l '/etc/credstore.encrypted/" ++ shellQuoteSingle service ++ "/'"

def journalCommand (unit : String) (journalLines : Nat) : String :=
  "sudo -n journalctl -u " ++ shellQuoteSingle unit ++ " --no-pager -n " ++ toString journalLines

def pathsCommand (unit : String) : String :=
  "sfw_paths() \x7b\nu=" ++ shellQuoteSingle unit ++ "\n" ++
    "for prop in WorkingDirectory ReadWritePaths ReadOnlyPaths InaccessiblePaths; do\n" ++
    "sudo -n systemctl show \"$u\" -p \"$prop\" --value 2>/dev/null | tr ' ' '\\n' | " ++
    "while IFS= read -r p; do\n[ -n \"$p\" ] || continue\n" ++
    "case \"$p\" in -*) continue ;; esac\n" ++
    "if [ -e \"$p\" ]; then printf 'ok %s %s\\n' \"$prop\" \"$p\"; " ++
    "else printf 'missing %s %s\\n' \"$prop\" \"$p\"; fi\ndone\ndone\n" ++
    "sudo -n systemctl show \"$u\" -p EnvironmentFile --value 2>/dev/null | tr ' ' '\\n' | " ++
    "while IFS= read -r p; do\n[ -n \"$p\" ] || continue\n" ++
    "case \"$p\" in -*) continue ;; esac\n" ++
    "if [ -e \"$p\" ]; then printf 'ok EnvironmentFile %s\\n' \"$p\"; " ++
    "else printf 'missing EnvironmentFile %s\\n' \"$p\"; fi\ndone\n\x7d; sfw_paths"

def portsCommand : String :=
  "ss -ltnp 2>/dev/null | awk 'NR>1 \x7b\x7bprint\x7d\x7d'; echo '--- nft ---'; " ++
    "(sudo -n nft list ruleset 2>/dev/null || nft list ruleset 2>/dev/null) " ++
    "| grep -E 'dport [0-9]+' | head -20; echo '--- podman ---'; (podman ps --format " ++
    "'\x7b\x7b\x7b\x7b.Names\x7d\x7d\x7d\x7d \x7b\x7b\x7b\x7b.Ports\x7d\x7d\x7d\x7d' " ++
    "2>/dev/null || true) | head -20"

def fleetDirsCommand : String :=
  "sfw_units=$(systemctl list-unit-files --type=service --no-legend --no-pager 2>/dev/null " ++
    "| awk '\x7bprint $1\x7d'); [ -n \"$sfw_units\" ] || exit 0; " ++
    "sudo -n systemctl show $sfw_units -p Id,RuntimeDirectory 2>/dev/null"

end Commands

section Batches
variable (journalLines : Nat)

def socketUnitOf (unit : String) : String := Str.replace unit ".service" ".socket"

/-- The questions about one unit under their kinds. -/
def unitQuestions (service unit : String) : List Question :=
  [("unit_state", isActiveCommand unit),
    ("socket_load", socketLoadCommand (socketUnitOf unit)),
    ("socket_state", isActiveCommand (socketUnitOf unit)),
    ("props", propsCommand unit),
    ("unit_file", unitFileCommand unit),
    ("credstore", credstoreListing service),
    ("journal", journalCommand unit journalLines),
    ("paths", pathsCommand unit)]

def addUnitSections (service unit : String) : List Question :=
  (unitQuestions journalLines service unit).map (fun q => (sectionId unit q.1, q.2)) ++
    [("ports", portsCommand)]

def questions (units : List (String × String)) : List Question :=
  units.flatMap (fun p => addUnitSections journalLines p.1 p.2) ++ [("fleet_dirs", fleetDirsCommand)]

def newMany (pid nanos : Nat) (units : List (String × String)) : Batch :=
  (questions journalLines units).foldl (fun batch q => batch.section q.1 q.2) (Batch.new pid nanos)

/-- The batch waits for one answer to each question. -/
theorem count_newMany (pid nanos : Nat) (units : List (String × String)) :
    (newMany journalLines pid nanos units).count = (questions journalLines units).length := by
  have hfold : ∀ (qs : List Question) (batch : Batch),
      (qs.foldl (fun batch q => batch.section q.1 q.2) batch).count = batch.count + qs.length := by
    intro qs
    induction qs with
    | nil => exact fun _ => rfl
    | cons q qs ih =>
      intro batch
      rw [List.foldl_cons, ih, List.length_cons, Nat.add_comm qs.length 1, ← Nat.add_assoc]
      rfl
  rw [newMany, hfold]
  exact Nat.zero_add _

/-- The audit of one service names its unit after it. -/
def aloneUnit (service : String) : String := service ++ ".service"

end Batches

/-- The kinds that the check of a unit reads for that unit. -/
def readKinds : List String :=
  ["props", "journal", "unit_state", "socket_load", "socket_state", "unit_file", "paths"]

/-- All the ids it reads. -/
def readIds (unit : String) : List String :=
  readKinds.map (sectionId unit) ++ ["credstore", "fleet_dirs", "ports"]

/-- The socket unit that the report names. -/
def reportedSocket (service : String) : String := service ++ ".socket"

/-- The questions as the check of a unit understands their answers. -/
def expected (journalLines : Nat) (service unit : String) : List Question :=
  [(sectionId unit "unit_state", isActiveCommand unit),
    (sectionId unit "socket_load", socketLoadCommand (reportedSocket service)),
    (sectionId unit "socket_state", isActiveCommand (reportedSocket service)),
    (sectionId unit "props", propsCommand unit),
    (sectionId unit "unit_file", unitFileCommand unit),
    ("credstore", credstoreListing service),
    (sectionId unit "journal", journalCommand unit journalLines),
    (sectionId unit "paths", pathsCommand unit),
    ("fleet_dirs", fleetDirsCommand),
    ("ports", portsCommand)]

/-- The audit reads what it asks, and asks it once. -/
structure ReadsWhatItAsks (journalLines : Nat) (units : List (String × String)) : Prop where
  distinct : ((questions journalLines units).map Prod.fst).Nodup
  asked : ∀ p ∈ units, ∀ id ∈ readIds p.2, id ∈ (questions journalLines units).map Prod.fst
  about : ∀ p ∈ units, ∀ q ∈ expected journalLines p.1 p.2, ∀ command,
    (q.1, command) ∈ questions journalLines units → command = q.2
  alone : ∀ p ∈ units, addUnitSections journalLines p.1 (aloneUnit p.1) =
    addUnitSections journalLines p.1 p.2

section Ids
variable {journalLines : Nat} {units : List (String × String)} {u v k k' : String}

def kinds : List String :=
  ["unit_state", "socket_load", "socket_state", "props", "unit_file", "credstore", "journal", "paths"]

def hostIds : List String := ["credstore", "fleet_dirs", "ports"]

/-- No kind with its separator ends another one. -/
theorem kinds_apart : ∀ k ∈ kinds, ∀ k' ∈ kinds, '_' :: k.toList <:+ '_' :: k'.toList → k = k' := by
  decide

theorem hostIds_apart : ∀ k ∈ kinds, ∀ id ∈ hostIds, ¬ '_' :: k.toList <:+ id.toList := by
  decide

theorem toList_sectionId (u k : String) : (sectionId u k).toList = u.toList ++ '_' :: k.toList := by
  simp [sectionId]

theorem sectionId_inj (hk : k ∈ kinds) (hk' : k' ∈ kinds) (h : sectionId u k = sectionId v k') :
    u = v ∧ k = k' := by
  have hlist : u.toList ++ '_' :: k.toList = v.toList ++ '_' :: k'.toList := by
    rw [← toList_sectionId, ← toList_sectionId, h]
  have hkind : k = k' := by
    have hsuffix : '_' :: k.toList <:+ v.toList ++ '_' :: k'.toList := ⟨u.toList, hlist⟩
    cases List.suffix_or_suffix_of_suffix hsuffix ⟨v.toList, rfl⟩ with
    | inl hs => exact kinds_apart k hk k' hk' hs
    | inr hs => exact (kinds_apart k' hk' k hk hs).symm
  subst hkind
  exact ⟨String.toList_inj.mp (List.append_cancel_right hlist), rfl⟩

theorem sectionId_ne (hk : k ∈ kinds) {id : String} (hid : id ∈ hostIds) : sectionId u k ≠ id := by
  intro h
  refine hostIds_apart k hk id hid ⟨u.toList, ?_⟩
  rw [← toList_sectionId, h]

theorem ids_addUnitSections (service unit : String) :
    (addUnitSections journalLines service unit).map Prod.fst =
      kinds.map (sectionId unit) ++ ["ports"] := rfl

theorem ids_questions : (questions journalLines units).map Prod.fst =
    units.flatMap (fun p => kinds.map (sectionId p.2) ++ ["ports"]) ++ ["fleet_dirs"] := by
  simp only [questions, List.map_append, List.map_flatMap, ids_addUnitSections]
  rfl

theorem nodup_ids_of_one (unit : String) :
    (kinds.map (sectionId unit) ++ ["ports"] ++ ["fleet_dirs"]).Nodup := by
  have hkinds : (kinds.map (sectionId unit)).Nodup :=
    List.Nodup.map_on (fun k hk k' hk' h => (sectionId_inj hk hk' h).2) (by decide)
  have hother : ∀ id ∈ hostIds, id ∉ kinds.map (sectionId unit) := by
    intro id hid hmem
    obtain ⟨k, hk, hsame⟩ := List.mem_map.mp hmem
    exact sectionId_ne hk hid hsame
  have hports := hother "ports" (by decide)
  have hfleet := hother "fleet_dirs" (by decide)
  rw [List.append_assoc, List.nodup_append]
  refine ⟨hkinds, by decide, fun a ha b hb hab => ?_⟩
  subst hab
  simp only [List.cons_append, List.nil_append, List.mem_cons, List.not_mem_nil, or_false] at hb
  rcases hb with rfl | rfl
  · exact hports ha
  · exact hfleet ha

/-- The question about the ports is asked once for each unit. -/
theorem distinct_iff :
    ((questions journalLines units).map Prod.fst).Nodup ↔ units.length ≤ 1 := by
  rw [ids_questions]
  match units with
  | [] => simp
  | [p] => simpa using nodup_ids_of_one p.2
  | p :: q :: rest =>
    refine iff_of_false (fun h => ?_) (by simp)
    have hcount := List.nodup_iff_count_le_one.mp h "ports"
    simp only [List.flatMap_cons, List.count_append, List.count_singleton_self] at hcount
    omega

theorem mem_ids {p : String × String} (hp : p ∈ units) {id : String}
    (h : id ∈ kinds.map (sectionId p.2) ++ ["ports", "fleet_dirs"]) :
    id ∈ (questions journalLines units).map Prod.fst := by
  rw [ids_questions, List.mem_append, List.mem_flatMap]
  rw [List.mem_append] at h
  cases h with
  | inl h => exact .inl ⟨p, hp, List.mem_append_left _ h⟩
  | inr h =>
    simp only [List.mem_cons, List.not_mem_nil, or_false] at h
    rcases h with rfl | rfl
    · exact .inl ⟨p, hp, List.mem_append_right _ (List.mem_singleton_self _)⟩
    · exact .inr (List.mem_singleton_self _)

/-- Every id but the one of the credential store is asked for. -/
theorem asked_of_ne {p : String × String} (hp : p ∈ units) {id : String} (hid : id ∈ readIds p.2)
    (hne : id ≠ "credstore") : id ∈ (questions journalLines units).map Prod.fst := by
  have hkinds : ∀ k ∈ readKinds, k ∈ kinds := by decide
  refine mem_ids hp ?_
  rw [readIds, List.mem_append] at hid
  cases hid with
  | inl h =>
    obtain ⟨k, hk, rfl⟩ := List.mem_map.mp h
    exact List.mem_append_left _ (List.mem_map_of_mem (hkinds k hk))
  | inr h =>
    refine List.mem_append_right _ ?_
    simp only [List.mem_cons, List.not_mem_nil, or_false] at h ⊢
    rcases h with rfl | rfl | rfl
    · exact absurd rfl hne
    · exact .inr rfl
    · exact .inl rfl

/-- The store is asked for under an id with the unit in front, and read without it. -/
theorem credstore_not_asked : "credstore" ∉ (questions journalLines units).map Prod.fst := by
  rw [ids_questions]
  intro h
  rcases List.mem_append.mp h with h | h
  · obtain ⟨p, -, hid⟩ := List.mem_flatMap.mp h
    rcases List.mem_append.mp hid with hid | hid
    · obtain ⟨k, hk, hsame⟩ := List.mem_map.mp hid
      exact sectionId_ne hk (by decide) hsame
    · exact absurd (List.mem_singleton.mp hid) (by decide)
  · exact absurd (List.mem_singleton.mp h) (by decide)

/-- A unit that is audited alone is asked about under the service's own name. -/
theorem alone_iff (p : String × String) : addUnitSections journalLines p.1 (aloneUnit p.1) =
    addUnitSections journalLines p.1 p.2 ↔ p.2 = aloneUnit p.1 := by
  constructor
  · intro h
    have hids := congrArg (List.map Prod.fst) h
    rw [ids_addUnitSections, ids_addUnitSections] at hids
    have hfirst := (List.cons.inj hids).1
    exact (sectionId_inj (by decide) (by decide) hfirst).1.symm
  · intro h
    rw [h]

theorem mem_questions {q : Question} : q ∈ questions journalLines units ↔
    (∃ p ∈ units, ∃ r ∈ unitQuestions journalLines p.1 p.2, q = (sectionId p.2 r.1, r.2)) ∨
      (units ≠ [] ∧ q = ("ports", portsCommand)) ∨ q = ("fleet_dirs", fleetDirsCommand) := by
  have hports : (∃ p ∈ units, q = ("ports", portsCommand)) ↔
      units ≠ [] ∧ q = ("ports", portsCommand) := by
    constructor
    · rintro ⟨p, hp, hq⟩
      exact ⟨List.ne_nil_of_mem hp, hq⟩
    · rintro ⟨hne, hq⟩
      obtain ⟨p, hp⟩ := List.exists_mem_of_ne_nil units hne
      exact ⟨p, hp, hq⟩
  rw [← hports]
  simp only [questions, addUnitSections, List.mem_append, List.mem_flatMap, List.mem_map,
    List.mem_singleton, eq_comm (a := q)]
  constructor
  · rintro (⟨p, hp, h | h⟩ | h)
    · exact .inl ⟨p, hp, h⟩
    · exact .inr (.inl ⟨p, hp, h⟩)
    · exact .inr (.inr h)
  · rintro (⟨p, hp, h⟩ | ⟨p, hp, h⟩ | h)
    · exact .inl ⟨p, hp, .inl h⟩
    · exact .inl ⟨p, hp, .inr h⟩
    · exact .inr h

/-- The kinds of one unit's questions are different, so that an id has one command. -/
theorem command_unique {service : String} {unit c c' : String}
    (h : (k, c) ∈ unitQuestions journalLines service unit)
    (h' : (k, c') ∈ unitQuestions journalLines service unit) : c = c' := by
  have hnodup : ((unitQuestions journalLines service unit).map Prod.fst).Nodup := by
    have hkinds : (unitQuestions journalLines service unit).map Prod.fst = kinds := rfl
    rw [hkinds]
    decide
  exact congrArg Prod.snd (List.inj_on_of_nodup_map hnodup h h' rfl)

theorem command_of_service {service unit : String} (service' : String) {r : Question}
    (h : r ∈ unitQuestions journalLines service unit) (hr : r.1 ≠ "credstore") :
    r ∈ unitQuestions journalLines service' unit := by
  simp only [unitQuestions, List.mem_cons, List.not_mem_nil, or_false] at h ⊢
  rcases h with rfl | rfl | rfl | rfl | rfl | rfl | rfl | rfl <;> simp at hr ⊢

theorem kind_mem {service unit : String} {r : Question}
    (h : r ∈ unitQuestions journalLines service unit) : r.1 ∈ kinds := by
  have hmem := List.mem_map_of_mem (f := Prod.fst) h
  exact hmem

/-- Where the two sockets are one, the check expects the commands as they are asked. -/
theorem expected_asked {service unit : String} (h : socketUnitOf unit = reportedSocket service)
    {q : Question} (hq : q ∈ expected journalLines service unit) :
    (∃ r ∈ unitQuestions journalLines service unit, r.1 ≠ "credstore" ∧
      q = (sectionId unit r.1, r.2)) ∨ q.1 = "credstore" ∨
        q = ("fleet_dirs", fleetDirsCommand) ∨ q = ("ports", portsCommand) := by
  simp only [expected, ← h, List.mem_cons, List.not_mem_nil, or_false] at hq
  rcases hq with rfl | rfl | rfl | rfl | rfl | rfl | rfl | rfl | rfl | rfl <;>
    simp [unitQuestions]

/-- What is asked under an id is about what the check takes it for, as long as the socket unit of
the question is the one of the report. -/
theorem about_iff : (∀ p ∈ units, ∀ q ∈ expected journalLines p.1 p.2, ∀ command,
    (q.1, command) ∈ questions journalLines units → command = q.2) ↔
      ∀ p ∈ units, socketUnitOf p.2 = reportedSocket p.1 := by
  constructor
  · intro h p hp
    have hsame := h p hp (sectionId p.2 "socket_state", isActiveCommand (reportedSocket p.1))
      (by simp [expected]) (isActiveCommand (socketUnitOf p.2))
      (mem_questions.mpr (.inl ⟨p, hp, ("socket_state", isActiveCommand (socketUnitOf p.2)),
        by simp [unitQuestions], rfl⟩))
    exact shellQuoteSingle_inj ((String.append_right_inj _).mp hsame)
  · intro h p hp q hq command hmem
    rcases expected_asked (h p hp) hq with ⟨r, hr, hstore, rfl⟩ | hstore | rfl | rfl
    · rcases mem_questions.mp hmem with ⟨p', -, r', hr', hsame⟩ | ⟨-, hsame⟩ | hsame
      · obtain ⟨hid, hcommand⟩ := Prod.mk.inj hsame
        obtain ⟨hunit, hkind⟩ := sectionId_inj (kind_mem hr) (kind_mem hr') hid
        have hr'' := command_of_service p.1 hr' (hkind ▸ hstore)
        rw [← hunit] at hr''
        rw [hcommand]
        exact command_unique (k := r.1) (hkind ▸ hr'') hr
      · exact absurd (Prod.mk.inj hsame).1 (sectionId_ne (kind_mem hr) (by decide))
      · exact absurd (Prod.mk.inj hsame).1 (sectionId_ne (kind_mem hr) (by decide))
    · exact absurd (List.mem_map_of_mem (f := Prod.fst) hmem) (hstore ▸ credstore_not_asked)
    · rcases mem_questions.mp hmem with ⟨p', -, r', hr', hsame⟩ | ⟨-, hsame⟩ | hsame
      · exact absurd (Prod.mk.inj hsame).1.symm (sectionId_ne (kind_mem hr') (by decide))
      · exact absurd (Prod.mk.inj hsame).1 (by decide)
      · exact (Prod.mk.inj hsame).2
    · rcases mem_questions.mp hmem with ⟨p', -, r', hr', hsame⟩ | ⟨-, hsame⟩ | hsame
      · exact absurd (Prod.mk.inj hsame).1.symm (sectionId_ne (kind_mem hr') (by decide))
      · exact (Prod.mk.inj hsame).2
      · exact absurd (Prod.mk.inj hsame).1 (by decide)

end Ids

/-- No audit of a unit reads what it asks: the credential store is read under an id that no
question has. -/
theorem reads_what_it_asks_iff (journalLines : Nat) (units : List (String × String)) :
    ReadsWhatItAsks journalLines units ↔ units = [] := by
  constructor
  · intro h
    cases units with
    | nil => rfl
    | cons p rest =>
      have hread : "credstore" ∈ readIds p.2 := by simp [readIds]
      exact absurd (h.asked p List.mem_cons_self _ hread) credstore_not_asked
  · rintro rfl
    exact ⟨distinct_iff.mpr (by simp), by simp, by simp, by simp⟩

def twoServices : List (String × String) := [("dufs", "dufs"), ("sws", "sws")]

/-- The question about the ports has one id twice, the store is read and not asked for, the sockets
of the two sides differ, and the audit of one service alone asks under other ids. -/
theorem audit_of_two_services :
    ¬ ReadsWhatItAsks 50 twoServices ∧
      ¬ ((questions 50 twoServices).map Prod.fst).Nodup ∧
      "credstore" ∉ (questions 50 twoServices).map Prod.fst ∧
      socketUnitOf "dufs" ≠ reportedSocket "dufs" ∧ "dufs" ≠ aloneUnit "dufs" := by
  have hdistinct : ¬ ((questions 50 twoServices).map Prod.fst).Nodup :=
    fun h => absurd (distinct_iff.mp h) (by decide)
  exact ⟨fun h => hdistinct h.distinct, hdistinct, credstore_not_asked, by decide, by decide⟩

end Shellflow.ServiceCheck
