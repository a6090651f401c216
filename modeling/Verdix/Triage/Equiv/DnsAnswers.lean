import Verdix.Triage.Indicators

/-!
# The DNS answers of a flow

`Answers event name rdata` says what it means that a dns event gives `rdata` as an answer for
`name`, in each shape that Suricata writes.  `dnsAnswerIps_has`: every such answer that is an
address is found, whatever the other events are.
-/

namespace Verdix.Indicators

open Ipaddress

variable {lower : String → String}

/-! ### What a dns event answers -/

/-- The names that the event asks for. -/
inductive QueryName (dns : List (String × Json)) : String → Prop
  | flat {name : String} : Json.member dns "rrname" = .str name → QueryName dns name
  | single {query : List (String × Json)} {name : String} :
      Json.member dns "queries" = .obj query → Json.member query "rrname" = .str name →
      QueryName dns name
  | listed {queries : List Json} {query : List (String × Json)} {name : String} :
      Json.member dns "queries" = .arr queries → .obj query ∈ queries →
      Json.member query "rrname" = .str name → QueryName dns name

/-- The answers in the event, each with the names it is an answer for. -/
inductive AnswerOf (dns : List (String × Json)) : String → String → Prop
  | flat {name rdata : String} :
      QueryName dns name → Json.member dns "rdata" = .str rdata → AnswerOf dns name rdata
  | record {answers : List Json} {record : List (String × Json)} {name rdata : String} :
      Json.member dns "answers" = .arr answers → .obj record ∈ answers →
      QueryName dns name ∨ Json.member record "rrname" = .str name →
      Json.member record "rdata" = .str rdata → AnswerOf dns name rdata
  | grouped {grouped : List (String × Json)} {rrtype : String} {rdatas : List Json}
      {name rdata : String} :
      QueryName dns name → Json.member dns "grouped" = .obj grouped → rrtype ∈ ["A", "AAAA"] →
      Json.member grouped rrtype = .arr rdatas → .str rdata ∈ rdatas → AnswerOf dns name rdata

/-- A dns event with such an answer, for a name that is not empty. -/
def Answers (event : Json) (name rdata : String) : Prop :=
  ∃ members dns, event = .obj members ∧ Json.member members "event_type" = .str "dns" ∧
    Json.member members "dns" = .obj dns ∧ name ≠ "" ∧ AnswerOf dns name rdata

/-! ### The dict of sets -/

namespace DnsAnswers

def Has (answers : DnsAnswers) (name rdata : String) : Prop :=
  ∃ ips, (name, ips) ∈ answers ∧ rdata ∈ ips

/-- An answer that is added is there. -/
theorem has_add (answers : DnsAnswers) (name rdata : String) :
    (answers.add name rdata).Has name rdata := by
  induction answers with
  | nil => exact ⟨[rdata], by simp [add], by simp⟩
  | cons a answers ih =>
    obtain ⟨n, ips⟩ := a
    rw [add]
    split
    · rename_i h
      subst h
      exact ⟨ips.insert rdata, List.mem_cons_self, List.mem_insert_self⟩
    · obtain ⟨ips', hmem, hip⟩ := ih
      exact ⟨ips', List.mem_cons_of_mem _ hmem, hip⟩

/-- The answers before it stay. -/
theorem Has.add {answers : DnsAnswers} {n r : String} (h : answers.Has n r) (name rdata : String) :
    (answers.add name rdata).Has n r := by
  induction answers with
  | nil =>
    obtain ⟨ips, hmem, -⟩ := h
    cases hmem
  | cons a answers ih =>
    obtain ⟨m, ms⟩ := a
    obtain ⟨ips, hmem, hip⟩ := h
    rw [DnsAnswers.add]
    split
    · rcases List.mem_cons.mp hmem with heq | hmem
      · cases heq
        exact ⟨ms.insert rdata, List.mem_cons_self, List.mem_insert_of_mem hip⟩
      · exact ⟨ips, List.mem_cons_of_mem _ hmem, hip⟩
    · rcases List.mem_cons.mp hmem with heq | hmem
      · exact ⟨ips, heq ▸ List.mem_cons_self, hip⟩
      · obtain ⟨ips', hmem', hip'⟩ := ih ⟨ips, hmem, hip⟩
        exact ⟨ips', List.mem_cons_of_mem _ hmem', hip'⟩

end DnsAnswers

/-! ### No step loses an answer -/

section Mono

variable {n r : String} {s t : DnsAnswers}

theorem addName_mono {rdata : String} {name : Json} (h : addName lower rdata s name = .ok t)
    (hs : s.Has n r) : t.Has n r := by
  unfold addName at h
  split at h
  · cases name with
    | str name =>
      cases h
      exact hs.add _ _
    | _ => cases h
  · cases h
    exact hs

theorem addAnswer_mono {names : List Json} {rdata : Json}
    (h : addAnswer lower names s rdata = .ok t) (hs : s.Has n r) : t.Has n r := by
  unfold addAnswer at h
  split at h
  · split at h
    · exact Except.foldlM_preserves (P := fun s => s.Has n r) (fun _ _ _ => addName_mono) h hs
    · cases h
      exact hs
  · cases h
    exact hs

theorem addRecord_mono {names : List Json} {ans : Json}
    (h : addRecord lower names s ans = .ok t) (hs : s.Has n r) : t.Has n r := by
  unfold addRecord at h
  split at h
  · exact addAnswer_mono h hs
  · cases h
    exact hs

theorem addGroup_mono {names : List Json} {grouped : List (String × Json)} {rrtype : String}
    (h : addGroup lower names grouped s rrtype = .ok t) (hs : s.Has n r) : t.Has n r := by
  obtain ⟨rdatas, -, h⟩ := Except.bind_eq_ok.mp h
  exact Except.foldlM_preserves (P := fun s => s.Has n r) (fun _ _ _ => addAnswer_mono) h hs

/-- No event takes an answer away. -/
theorem addEvent_mono {event : Json} (h : addEvent lower s event = .ok t) (hs : s.Has n r) :
    t.Has n r := by
  obtain ⟨etype, -, h⟩ := Except.bind_eq_ok.mp h
  split at h
  · obtain ⟨dns, -, h⟩ := Except.bind_eq_ok.mp h
    obtain ⟨names, -, h⟩ := Except.bind_eq_ok.mp h
    obtain ⟨rdata, -, h⟩ := Except.bind_eq_ok.mp h
    obtain ⟨s₁, h₁, h⟩ := Except.bind_eq_ok.mp h
    obtain ⟨answers, -, h⟩ := Except.bind_eq_ok.mp h
    obtain ⟨records, -, h⟩ := Except.bind_eq_ok.mp h
    obtain ⟨s₂, h₂, h⟩ := Except.bind_eq_ok.mp h
    obtain ⟨grouped, -, h⟩ := Except.bind_eq_ok.mp h
    have hs₂ : s₂.Has n r :=
      Except.foldlM_preserves (P := fun s => s.Has n r) (fun _ _ _ => addRecord_mono) h₂
        (addAnswer_mono h₁ hs)
    split at h
    · exact Except.foldlM_preserves (P := fun s => s.Has n r) (fun _ _ _ => addGroup_mono) h hs₂
    · cases h
      exact hs₂
  · cases h
    exact hs

end Mono

/-! ### Every step keeps the answers it reads -/

section Found

variable {name rdata : String} {s t : DnsAnswers}

/-- An address goes to every name it is read for. -/
theorem addAnswer_has {names : List Json} (hname : .str name ∈ names) (hne : name ≠ "")
    (hip : (ipAddress (.str rdata)).isSome) (h : addAnswer lower names s (.str rdata) = .ok t) :
    t.Has (normalise lower name) rdata := by
  simp only [addAnswer, hip, if_true] at h
  refine Except.foldlM_of_mem (P := fun s => s.Has (normalise lower name) rdata)
    (fun _ _ _ => addName_mono) hname ?_ h
  intro u v hv
  have htruthy : (Json.str name).truthy = true := decide_eq_true hne
  rw [addName, if_pos htruthy] at hv
  cases hv
  exact DnsAnswers.has_add u _ rdata

/-- The names that an event asks for are all read. -/
theorem mem_queryNames {dns : List (String × Json)} {names : List Json}
    (h : queryNames (.obj dns) = .ok names) (hq : QueryName dns name) : .str name ∈ names := by
  simp only [queryNames, Json.get_obj, bind, Except.bind] at h
  cases hq with
  | flat hflat =>
    rw [hflat, Json.str_orElse] at h
    split at h <;>
    · cases h
      exact List.mem_cons_self
  | @single query _ hquery hname =>
    cases query with
    | nil => cases hname
    | cons m ms =>
      simp only [hquery, Json.obj_cons_orElse, hname, Json.str_orElse] at h
      cases h
      exact List.mem_cons_of_mem _ List.mem_cons_self
  | @listed queries query _ hqueries hmem hname =>
    rw [hqueries, Json.arr_orElse] at h
    cases h
    refine List.mem_cons_of_mem _ (List.mem_filterMap.mpr ⟨.obj query, hmem, ?_⟩)
    simp only [hname, Json.str_orElse]

theorem addRecord_has {names : List Json} {record : List (String × Json)}
    (hname : .str name ∈ names ∨ Json.member record "rrname" = .str name) (hne : name ≠ "")
    (hrdata : Json.member record "rdata" = .str rdata) (hip : (ipAddress (.str rdata)).isSome)
    (h : addRecord lower names s (.obj record) = .ok t) : t.Has (normalise lower name) rdata := by
  rw [addRecord, hrdata] at h
  refine addAnswer_has ?_ hne hip h
  rcases hname with hname | hname
  · exact List.mem_append_left _ hname
  · rw [hname, Json.str_orElse]
    exact List.mem_append_right _ List.mem_cons_self

theorem addGroup_has {names : List Json} {grouped : List (String × Json)} {rrtype : String}
    {rdatas : List Json} (hname : .str name ∈ names) (hne : name ≠ "")
    (hgroup : Json.member grouped rrtype = .arr rdatas) (hrdata : .str rdata ∈ rdatas)
    (hip : (ipAddress (.str rdata)).isSome)
    (h : addGroup lower names grouped s rrtype = .ok t) : t.Has (normalise lower name) rdata := by
  rw [addGroup, hgroup, Json.arr_orElse] at h
  exact Except.foldlM_of_mem (P := fun s => s.Has (normalise lower name) rdata)
    (fun _ _ _ => addAnswer_mono) hrdata (fun _ _ => addAnswer_has hname hne hip) h

/-- Every answer of an event, flat, in a record or grouped, is kept under its names. -/
theorem addEvent_has {event : Json} (ha : Answers event name rdata)
    (hip : (ipAddress (.str rdata)).isSome) (h : addEvent lower s event = .ok t) :
    t.Has (normalise lower name) rdata := by
  obtain ⟨members, dns, rfl, htype, hdns, hne, ha⟩ := ha
  rw [addEvent, Json.get_obj_bind, htype, if_pos (Json.isStr_iff.mpr rfl), Json.get_obj_bind, hdns,
    Json.obj_orElse] at h
  obtain ⟨names, hnames, h⟩ := Except.bind_eq_ok.mp h
  rw [Json.get_obj_bind] at h
  obtain ⟨s₁, h₁, h⟩ := Except.bind_eq_ok.mp h
  rw [Json.get_obj_bind] at h
  obtain ⟨records, hrecords, h⟩ := Except.bind_eq_ok.mp h
  obtain ⟨s₂, h₂, h⟩ := Except.bind_eq_ok.mp h
  rw [Json.get_obj_bind] at h
  -- what is found before the last part of the event is kept by it
  have hkeep : s₂.Has (normalise lower name) rdata → t.Has (normalise lower name) rdata := by
    intro hs₂
    split at h
    · exact Except.foldlM_preserves (P := fun s => s.Has (normalise lower name) rdata)
        (fun _ _ _ => addGroup_mono) h hs₂
    · cases h
      exact hs₂
  cases ha with
  | flat hquery hrdata =>
    rw [hrdata] at h₁
    have hs₁ := addAnswer_has (mem_queryNames hnames hquery) hne hip h₁
    exact hkeep (Except.foldlM_preserves (P := fun s => s.Has (normalise lower name) rdata)
      (fun _ _ _ => addRecord_mono) h₂ hs₁)
  | record hanswers hmem hname hrdata =>
    rw [hanswers, Json.arr_orElse] at hrecords
    cases hrecords
    exact hkeep (Except.foldlM_of_mem (P := fun s => s.Has (normalise lower name) rdata)
      (fun _ _ _ => addRecord_mono) hmem
      (fun _ _ => addRecord_has (hname.imp_left (mem_queryNames hnames)) hne hrdata hip) h₂)
  | grouped hquery hgrouped hrrtype hgroup hrdata =>
    rw [hgrouped, Json.obj_orElse] at h
    exact Except.foldlM_of_mem (P := fun s => s.Has (normalise lower name) rdata)
      (fun _ _ _ => addGroup_mono) hrrtype
      (fun _ _ => addGroup_has (mem_queryNames hnames hquery) hne hgroup hrdata hip) h

end Found

/-- Every answer in the flow that is an address is found under its name. -/
theorem dnsAnswerIps_has {events : List Json} {answers : DnsAnswers} {event : Json}
    {name rdata : String} (h : dnsAnswerIps lower events = .ok answers) (hevent : event ∈ events)
    (ha : Answers event name rdata) (hip : (ipAddress (.str rdata)).isSome) :
    answers.Has (normalise lower name) rdata :=
  Except.foldlM_of_mem (P := fun s => s.Has (normalise lower name) rdata)
    (fun _ _ _ => addEvent_mono) hevent (fun _ _ => addEvent_has ha hip) h

/-- Without a configuration no name is a `HOME_NET` name; with one, at least those with a
`HOME_NET` answer are. -/
theorem mem_homeNetNames {config : SuricataConfig} {events : List Json} {names : List String}
    {event : Json} {name rdata : String}
    (h : homeNetNames lower (some config) events = .ok names) (hevent : event ∈ events)
    (ha : Answers event name rdata) (hhome : config.InHomeNet (.str rdata)) :
    normalise lower name ∈ names := by
  obtain ⟨answers, hanswers, rfl⟩ := Except.map_eq_ok.mp h
  obtain ⟨addr, haddr, -⟩ := id hhome
  obtain ⟨ips, hmem, hip⟩ :=
    dnsAnswerIps_has hanswers hevent ha (Option.isSome_iff_exists.mpr ⟨addr, haddr⟩)
  refine List.mem_map.mpr ⟨(normalise lower name, ips), List.mem_filter.mpr ⟨hmem, ?_⟩, rfl⟩
  rw [List.any_eq_true]
  exact ⟨rdata, hip, decide_eq_true (SuricataConfig.homeNet_mem_membershipForIp.mpr hhome)⟩

end Verdix.Indicators
