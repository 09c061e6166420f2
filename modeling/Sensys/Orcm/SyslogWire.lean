/-
# Syslog samples on the wire

Writer and reader of a sample agree only if every message of the queue is taken from it and BOTH
labels are enabled: the reader counts on as many messages as there were in the queue, and reads the
strings of the enabled labels only, while the writer packs both strings of the messages that match.

The reader is a loop over the strings that were packed (`rounds`).  With both labels it reads two
strings in a round and ends with the strings; with one label it takes every string for one of that
label, and without labels it reads nothing and sends a value for everything that was in the queue.

* `agrees_iff_labels`: which queues and labels are read as they should be.
* `strings_are_mixed_up`: two messages, with `severity` only.
-/
import Sensys.Opal.DssBounds
import Sensys.Orcm.Syslog

namespace Sensys.Orcm.Syslog

open CString Opal Opal.Dss Failing ErrcountsInventory EdacCollector List

/-! ## 1. Messages that are reported -/

/-- What the loop packs of a message. -/
def reported (log : Str) : Option Report := (regexec log).bind report

/-- A message that matches has a known facility. -/
def Known (log : Str) : Prop := (regexec log).isSome → (reported log).isSome

variable {log digits text hostname : Str} {r : Report} {s' : Handling MsgQueue}

/-- The parts of a message that begins with the pattern. -/
theorem matchHere_eq_some (h : matchHere log = some (digits, text)) :
    digits ≠ [] ∧ (∀ c ∈ digits, isDigit c = true) ∧ log = 60 :: (digits ++ 62 :: text) := by
  unfold matchHere at h
  split at h
  · split at h
    · rename_i c ds text' htake hdrop
      obtain ⟨rfl, rfl⟩ : c :: ds = digits ∧ text' = text := by simpa using h
      refine ⟨cons_ne_nil c ds, fun d hd => ?_, ?_⟩
      · exact mem_takeWhile_imp (htake ▸ hd)
      · rw [← htake, ← hdrop, takeWhile_append_dropWhile]
    · cases h
  · cases h

/-- The text of a match is in the message. -/
theorem regexec_eq_some : ∀ {log}, regexec log = some (digits, text) →
    ∃ front, log = front ++ text
  | c :: s, h => by
    rw [regexec] at h
    split at h
    · rename_i groups hgroups
      cases h
      obtain ⟨-, -, hlog⟩ := matchHere_eq_some hgroups
      exact ⟨60 :: (digits ++ [62]), by simp [hlog]⟩
    · obtain ⟨front, rfl⟩ := regexec_eq_some h
      exact ⟨c :: front, rfl⟩

theorem and_seven (n : ℕ) : n &&& 0x07 = n % 8 := Nat.and_two_pow_sub_one_eq_mod n 3

theorem and_shift (n : ℕ) : (n &&& 0xF8) >>> 3 = n / 8 % 32 := by
  rw [Nat.shiftRight_and_distrib, Nat.shiftRight_eq_div_pow]
  exact Nat.and_two_pow_sub_one_eq_mod (n / 8) 5

/-- **Well-formed messages are reported as they are.** -/
theorem reported_of_wellFormed (h : wellFormed log = some r) : reported log = some r := by
  obtain ⟨⟨digits, text⟩, hmatch, h⟩ := Option.bind_eq_some_iff.mp h
  obtain ⟨severity, hseverity, h⟩ := Option.bind_eq_some_iff.mp h
  obtain ⟨facility, hfacility, h⟩ := Option.bind_eq_some_iff.mp h
  obtain ⟨hne, hdigits, hlog⟩ := matchHere_eq_some hmatch
  have hregexec : regexec log = some (digits, text) := by
    rw [hlog] at hmatch ⊢
    rw [regexec, hmatch]
  have hlt : value digits / 8 < 24 := (List.getElem?_eq_some_iff.mp hfacility).1
  have hatoi : atoi digits = value digits := by
    have hstrtol : strtol (digits ++ []) = _ :=
      strtol_digits hne hdigits (by simp) (by rw [longMax]; omega)
    rw [List.append_nil] at hstrtol
    rw [atoi, hstrtol]
    exact int32_eq (Int.natCast_nonneg _) (by omega)
  have hreport : report (digits, text) = some r := by
    have hmod : value digits / 8 % 32 = value digits / 8 := Nat.mod_eq_of_lt (by omega)
    unfold report syslogGetSeverity syslogGetFacility
    simp only [hatoi, if_neg (Int.not_lt.mpr (Int.natCast_nonneg _)), Int.toNat_natCast, and_seven,
      and_shift, hmod, hseverity, hfacility]
    exact h
  rw [reported, hregexec]
  exact hreport

theorem isSome_reported_of_wellFormed (h : (wellFormed log).isSome) : (reported log).isSome := by
  obtain ⟨r, hr⟩ := Option.isSome_iff_exists.mp h
  rw [reported_of_wellFormed hr]
  rfl

/-- The strings of a report. -/
theorem report_eq_some (h : report (digits, text) = some r) :
    r.severity ∈ priorityNames ∧ ∃ facility ∈ facilityMsg, r.logMsg = logMsg facility text := by
  unfold report syslogGetSeverity syslogGetFacility at h
  obtain ⟨severity, hseverity, h⟩ := Option.bind_eq_some_iff.mp h
  obtain ⟨facility, hfacility, h⟩ := Option.bind_eq_some_iff.mp h
  split at hseverity
  · cases hseverity
  · rename_i hneg
    rw [if_neg hneg] at hfacility
    cases h
    exact ⟨mem_of_getElem? hseverity, facility, mem_of_getElem? hfacility, rfl⟩

/-- No severity is like a message. -/
theorem severity_ne_logMsg {log' r'} (h : reported log = some r) (h' : reported log' = some r') :
    r.severity ≠ r'.logMsg := by
  obtain ⟨groups, -, hreport⟩ := Option.bind_eq_some_iff.mp h
  obtain ⟨groups', -, hreport'⟩ := Option.bind_eq_some_iff.mp h'
  obtain ⟨hseverity, -⟩ := report_eq_some hreport
  obtain ⟨-, facility, -, hlog⟩ := report_eq_some hreport'
  have hcolon : ∀ name ∈ priorityNames, (58 : UInt8) ∉ name := by decide
  intro heq
  refine hcolon _ hseverity ?_
  rw [heq, hlog]
  exact mem_append_left _ (mem_append_right _ mem_cons_self)

/-- A message of the queue: a string, of a length that leaves room for the facility. -/
def LogFits (log : Str) : Prop := 0 ∉ log ∧ log.length < 2 ^ 30

/-- The strings that are packed have lengths that fit. -/
theorem LogFits.report (h : LogFits log) (hr : reported log = some r) :
    StrFits r.severity ∧ StrFits r.logMsg ∧ r.severity.length ≤ 6 ∧ r.logMsg.length < 2 ^ 30 + 64 := by
  obtain ⟨⟨digits, text⟩, hregexec, hreport⟩ := Option.bind_eq_some_iff.mp hr
  obtain ⟨hseverity, facility, hfacility, hlog⟩ := report_eq_some hreport
  obtain ⟨front, rfl⟩ := regexec_eq_some hregexec
  have hnames : ∀ name ∈ priorityNames, StrFits name ∧ name.length ≤ 6 := by decide
  have hfacilities : ∀ name ∈ facilityMsg, 0 ∉ name ∧ name.length ≤ 40 := by decide
  obtain ⟨hzero, hlength⟩ := hfacilities facility hfacility
  obtain ⟨hzero', hlength'⟩ := h
  have hlen : r.logMsg.length = facility.length + 2 + text.length := by
    rw [hlog, logMsg, length_append, length_append]
    rfl
  rw [length_append] at hlength'
  refine ⟨(hnames _ hseverity).1, ⟨?_, by omega⟩, (hnames _ hseverity).2, by omega⟩
  rw [hlog, logMsg]
  simp only [mem_append, not_or] at hzero' ⊢
  exact ⟨⟨hzero, by decide⟩, hzero'.2⟩

/-! ## 2. The writer -/

/-- The bytes of a report. -/
def encReport (type : BufferType) (r : Report) : List UInt8 :=
  encString type r.severity ++ encString type r.logMsg

/-- What becomes of the queue in one round. -/
def MsgQueue.after (q : MsgQueue) (log : Str) : MsgQueue :=
  if (regexec log).isSome then q.remove else q.next

variable (type : BufferType)

theorem packs_packMessage (packed : Bool) (hknown : Known log) (hfits : LogFits log) :
    Packs type (packMessage packed log) ((reported log).toList.flatMap (encReport type))
      fun q => (packed || (regexec log).isSome, q.after log) := by
  unfold packMessage MsgQueue.after
  rcases hregexec : regexec log with _ | groups
  · rw [reported, hregexec]
    simp only [Option.isSome_none, Bool.or_false, if_neg Bool.false_ne_true]
    exact packs_nil fun _ => rfl
  · have hreported : (reported log).isSome := hknown (by rw [hregexec]; rfl)
    obtain ⟨r, hr⟩ := Option.isSome_iff_exists.mp hreported
    have hreport : report groups = some r := by
      rw [reported, hregexec] at hr
      exact hr
    obtain ⟨hseverity, hlog, -⟩ := hfits.report hr
    rw [hr]
    simp only [hreport, Option.toList_some, Option.isSome_some, Bool.or_true, if_true,
      flatMap_singleton]
    have hlast : Packs type (do
        change MsgQueue.remove
        pure true) [] fun q => (true, q.remove) := packs_nil fun _ => rfl
    have hall := (packs_lift (writes_packString hseverity)).bind fun _ =>
      (packs_lift (writes_packString hlog)).bind fun _ => hlast
    rw [List.append_nil] at hall
    exact hall

/-- **What the loop packs**: two strings of every message that matches. -/
theorem packs_packMessages : ∀ logs packed,
    (∀ log ∈ logs, Known log ∧ LogFits log) →
      Packs type (packMessages packed logs) ((logs.filterMap reported).flatMap (encReport type))
        fun q => (packed || logs.any fun log => (regexec log).isSome, logs.foldl MsgQueue.after q)
  | [], packed, _ => by
    simp only [any_nil, Bool.or_false]
    exact packs_nil fun _ => rfl
  | log :: logs, packed, h => by
    obtain ⟨hknown, hfits⟩ := h log mem_cons_self
    have hrest := fun packed => packs_packMessages logs packed fun log' hlog' =>
      h log' (mem_cons_of_mem log hlog')
    have hall := (packs_packMessage type packed hknown hfits).bind hrest
    simp only [Bool.or_assoc] at hall
    rw [← flatMap_append] at hall
    have hlist : (log :: logs).filterMap reported =
        (reported log).toList ++ logs.filterMap reported := by
      cases hr : reported log <;> simp [hr]
    rw [hlist]
    exact hall

/-- **The loop ends well** only if every message that matches has a known facility; and something was
packed if a message matches. -/
theorem packMessages_eq_ok {packed'} : ∀ {logs packed s},
      packMessages packed logs s = (.ok packed', s') →
        (∀ log ∈ logs, Known log) ∧ packed' = (packed || logs.any fun log => (regexec log).isSome)
  | [], packed, s, h => by
    cases h
    simp
  | log :: logs, packed, s, h => by
    obtain ⟨packed'', s'', hfirst, hrest⟩ := of_bind_ok h
    have hpacked : Known log ∧ packed'' = (packed || (regexec log).isSome) := by
      unfold Known reported
      unfold packMessage at hfirst
      rcases hregexec : regexec log with _ | groups
      · rw [hregexec] at hfirst
        cases hfirst
        simp
      · rw [hregexec] at hfirst
        rcases hreport : report groups with _ | r
        · simp only [hreport] at hfirst
          cases hfirst
        · simp only [hreport] at hfirst
          obtain ⟨_, _, -, hfirst⟩ := of_bind_ok hfirst
          obtain ⟨_, _, -, hfirst⟩ := of_bind_ok hfirst
          cases hfirst
          simp [hreport]
    obtain ⟨hknown, hany⟩ := packMessages_eq_ok hrest
    exact ⟨forall_mem_cons.mpr ⟨hpacked.1, hknown⟩, by rw [hany, hpacked.2, any_cons, Bool.or_assoc]⟩

/-- A queue of messages, as many as an `int` can count. -/
structure Queue where
  messages : List Str
  fits : ∀ log ∈ messages, LogFits log
  count : messages.length < 2 ^ 31

/-- **A sample is written**: a message matches, and every one that does has a known facility. -/
def Written (metrics : Metrics) (msgQueue : List Str) : Prop :=
  metrics.all = true ∧ (∀ log ∈ msgQueue, Known log) ∧ ∃ log ∈ msgQueue, (regexec log).isSome

/-- The bytes in front of the messages. -/
def encHeader (type : BufferType) (metrics : Metrics) (hostname : Str) (currentTime : Timeval)
    (nmsg : Int32) : List UInt8 :=
  encString type (ofString "syslog") ++ (encString type hostname ++ (int32Format.encCall type nmsg ++
    (timevalFormat.encCall type currentTime ++ uint8Format.encCall type metrics.bits)))

variable (metrics : Metrics)

theorem writes_packHeader (hhost : StrFits hostname) (currentTime : Timeval) (nmsg : Int32) :
    Writes type (packHeader metrics hostname currentTime nmsg)
      (encHeader type metrics hostname currentTime nmsg) := by
  have hname : StrFits (ofString "syslog") := by decide
  exact (writes_packString hname).bind <| (writes_packString hhost).bind <|
    (int32Format.writes_packCall type trivial).bind <|
      (timevalFormat.writes_packCall type trivial).bind (uint8Format.writes_packCall type trivial)

/-- The bytes of a sample. -/
def encSample (type : BufferType) (metrics : Metrics) (hostname : Str) (currentTime : Timeval)
    (msgQueue : List Str) : List UInt8 :=
  encHeader type metrics hostname currentTime (Int32.ofInt msgQueue.length) ++
    (msgQueue.filterMap reported).flatMap (encReport type)

theorem length_encHeader_le (hhost : StrFits hostname) (currentTime : Timeval) (nmsg : Int32) :
    (encHeader type metrics hostname currentTime nmsg).length ≤ 2 ^ 32 := by
  have hname : (encString type (ofString "syslog")).length ≤ 6 + 11 :=
    length_encString_le type (ofString "syslog")
  have hhost' := length_encString_le type hostname
  have hlen := hhost.2
  have hcount : (int32Format.encCall type nmsg).length ≤ 4 + 6 :=
    Format.length_encCall_le int32Format (Nat.le_refl 4)
  have htime : (timevalFormat.encCall type currentTime).length ≤ 16 + 6 :=
    Format.length_encCall_le timevalFormat (Nat.le_refl 16)
  have hflags : (uint8Format.encCall type metrics.bits).length ≤ 1 + 6 :=
    Format.length_encCall_le uint8Format (Nat.le_refl 1)
  unfold encHeader
  simp only [length_append]
  omega

variable (q : Queue)

/-- There is memory for every sample. -/
theorem Queue.length_encSample_lt (hhost : StrFits hostname) (currentTime : Timeval) :
    (encSample type metrics hostname currentTime q.messages).length < memoryLimit := by
  have hreports : ((q.messages.filterMap reported).flatMap (encReport type)).length ≤
      (q.messages.filterMap reported).length * (2 ^ 30 + 128) := by
    refine length_flatMap_le fun r hr => ?_
    obtain ⟨log, hlog, hreported⟩ := mem_filterMap.mp hr
    obtain ⟨-, -, hseverity, hmsg⟩ := (q.fits log hlog).report hreported
    have hseverity' := length_encString_le type r.severity
    have hmsg' := length_encString_le type r.logMsg
    rw [encReport, length_append]
    omega
  have hcount := q.count
  have hle := length_filterMap_le reported q.messages
  have hheader := length_encHeader_le type metrics hhost currentTime
    (Int32.ofInt q.messages.length)
  rw [encSample, length_append, memoryLimit]
  omega

theorem Queue.ofInt_ne_zero {q : Queue} (h : q.messages ≠ []) :
    Int32.ofInt q.messages.length ≠ 0 := by
  intro hzero
  have hcount := q.count
  have hback := congrArg Int32.toInt hzero
  rw [Int32.toInt_ofInt_of_le (by omega) (by omega)] at hback
  simp at hback
  exact h hback

/-- **The sample that is written.** -/
theorem Queue.collect_of_written {q : Queue} {metrics} (h : Written metrics q.messages)
    (type : BufferType) (hhost : StrFits hostname) (currentTime : Timeval) :
    ∃ sample s, collectSyslogSample metrics hostname currentTime q.messages
      ⟨Buffer.construct type, ⟨[], q.messages⟩⟩ = (.ok (some sample), s) ∧ sample.Wf ∧
      sample.type = type ∧
      sample.unread = encSample type metrics hostname currentTime q.messages := by
  obtain ⟨hall, hknown, log, hlog, hmatch⟩ := h
  have hne : Int32.ofInt q.messages.length ≠ 0 := Queue.ofInt_ne_zero (ne_nil_of_mem hlog)
  have hheader : Packs type (lift _ : Handler MsgQueue Unit) _ _ :=
    packs_lift (writes_packHeader type metrics hhost currentTime (Int32.ofInt q.messages.length))
  have hpacks := hheader.bind fun _ =>
      packs_packMessages type q.messages false fun log hlog => ⟨hknown log hlog, q.fits log hlog⟩
  have hany : (q.messages.any fun log => (regexec log).isSome) = true :=
    any_eq_true.mpr ⟨log, hlog, hmatch⟩
  simp only [hany, Bool.or_true] at hpacks
  rcases hpacks ⟨Buffer.construct type, ⟨[], q.messages⟩⟩ (Buffer.wf_construct type) rfl with
    ⟨allocated, hrun, hwf⟩ | ⟨s', -, hlimit⟩
  · let sample := (Buffer.construct type).extend
      (encSample type metrics hostname currentTime q.messages) allocated
    refine ⟨sample, ⟨sample, q.messages.foldl MsgQueue.after ⟨[], q.messages⟩⟩, ?_, hwf, rfl, rfl⟩
    unfold collectSyslogSample
    simp only [hall, Bool.not_true, if_neg hne, if_neg Bool.false_ne_true]
    rw [bind_ok (attempt_ok hrun)]
    rfl
  · have hlt := q.length_encSample_lt type metrics hhost currentTime
    have hlimit' : memoryLimit ≤ 0 + (encSample type metrics hostname currentTime q.messages).length :=
      hlimit
    omega

/-- **Only then** is a sample written. -/
theorem written_of_collect {metrics msgQueue currentTime s sample}
    (h : collectSyslogSample metrics hostname currentTime msgQueue s = (.ok (some sample), s')) :
    Written metrics msgQueue := by
  unfold collectSyslogSample at h
  split at h
  · cases h
  rename_i hall
  split at h
  · cases h
  obtain ⟨result, s'', hattempt, h⟩ := of_bind_ok h
  rcases result with _ | _ | _
  · cases h
  · cases h
  obtain ⟨_, s₁, -, hpack⟩ := of_bind_ok (attempt_eq_ok hattempt)
  obtain ⟨hknown, hany⟩ := packMessages_eq_ok hpack
  exact ⟨by simpa using hall, hknown, any_eq_true.mp hany.symm⟩

/-! ## 3. The reader -/

/-- What the reader takes for the string of a label. -/
def takeLabel (use : Bool) (strings : List Str) : Option (Option (Option Str) × List Str) :=
  if use then
    match strings with
    | [] => none
    | s :: rest => some (some (some s), rest)
  else some (none, strings)

/-- The rounds of the reader over the strings that were packed. -/
def rounds (severity log : Bool) : ℕ → List Str → List (Option (Option Str) × Option (Option Str))
  | 0, _ => []
  | n + 1, strings =>
    match takeLabel severity strings with
    | none => []
    | some (s, strings) =>
      match takeLabel log strings with
      | none => []
      | some (l, strings) => (s, l) :: rounds severity log n strings

/-- Strings that come next, and nothing behind them. -/
structure Holds (b : Buffer) (strings : List Str) : Prop where
  wf : b.Wf
  fits : ∀ s ∈ strings, StrFits s
  unread : b.unread = strings.flatMap (encString b.type)

/-- A label that is there is read; and where the strings end, the call fails. -/
theorem unpackLabel_of_holds {b strings} (h : Holds b strings) (use : Bool) :
    (∃ label rest b', takeLabel use strings = some (label, rest) ∧ Holds b' rest ∧
      unpackLabel use b = (.ok label, b')) ∨
    (takeLabel use strings = none ∧ ∃ rc, unpackLabel use b = (.error (.rc rc), b)) := by
  unfold takeLabel unpackLabel
  cases use with
  | false => exact .inl ⟨none, strings, b, rfl, h, rfl⟩
  | true =>
    rcases strings with _ | ⟨s, tail⟩
    · obtain ⟨rc, hrun⟩ := (bounded_string trivial).unpack_nil (Int.le_refl 1) h.wf h.unread
      exact .inr ⟨rfl, rc, bind_error hrun⟩
    have hs := h.fits s mem_cons_self
    have hunread := h.unread
    obtain ⟨hwf', hrest⟩ := h.wf.past hunread
    refine .inl ⟨some (some s), tail, b.advance (encString b.type s).length, rfl,
      ⟨hwf', fun s' hs' => h.fits s' (mem_cons_of_mem s hs'), hrest⟩, ?_⟩
    have hload : loadString (charPtr s) = some <$> strdup (charPtr s) := rfl
    rw [if_pos rfl, bind_ok (reads_unpack_string hs b h.wf rfl _ hunread)]
    simp only [head?_cons, Option.join_some, hload, strdup_charPtr hs.1]
    rfl

/-- **The loop of the reader.**  It ends well, or because there is no string left. -/
theorem sendMessages_of_holds {sampletime flags severity log}
    (hseverity : (flags &&& 0x01 == 0x01) = severity) (hlog : (flags &&& 0x02 == 0x02) = log) :
    ∀ (n : ℕ) {strings : List Str} {b : Buffer}
      (_ : Holds b strings) (sent : List AnalyticsValue), ∃ result b',
        sendMessages hostname sampletime flags n ⟨b, sent⟩ = (result,
          ⟨b', sent ++ (rounds severity log n strings).map fun labels =>
            analyticsValue hostname sampletime labels.1 labels.2⟩) ∧ result ≠ .error .undefined
  | 0, strings, b, h, sent => ⟨.ok (), b, by simp [sendMessages, rounds]; rfl, nofun⟩
  | n + 1, strings, b, h, sent => by
    rw [sendMessages, rounds, hseverity, hlog]
    rcases unpackLabel_of_holds h severity with ⟨s, strings', b', htake, h', hrun⟩ | ⟨htake, rc, hrun⟩
    swap
    · exact ⟨.error (.rc rc), b, by rw [bind_error (lift_eq hrun)]; simp [htake], nofun⟩
    rw [bind_ok (lift_eq hrun), htake]
    rcases unpackLabel_of_holds h' log with ⟨l, strings'', b'', htake', h'', hrun'⟩ | ⟨htake', rc, hrun'⟩
    swap
    · exact ⟨.error (.rc rc), b', by rw [bind_error (lift_eq hrun')]; simp [htake'], nofun⟩
    rw [bind_ok (lift_eq hrun')]
    obtain ⟨result, b₃, hrest, hdefined⟩ := sendMessages_of_holds hseverity hlog n h''
      (sent ++ [analyticsValue hostname sampletime s l])
    refine ⟨result, b₃, ?_, hdefined⟩
    simp only [htake', map_cons]
    rw [List.append_assoc] at hrest
    exact hrest

/-- The strings of the messages that are reported. -/
def stringsOf (msgQueue : List Str) : List Str :=
  (msgQueue.filterMap reported).flatMap fun r => [r.severity, r.logMsg]

variable (msgQueue : List Str)

theorem flatMap_encReport :
    (msgQueue.filterMap reported).flatMap (encReport type) =
      (stringsOf msgQueue).flatMap (encString type) := by
  unfold stringsOf
  rw [flatMap_assoc]
  exact flatMap_congr fun r _ => by simp [encReport]

theorem bits_eq : (metrics.bits &&& 0x01 == 0x01) = metrics.severity ∧
    (metrics.bits &&& 0x02 == 0x02) = metrics.logMessage := by
  unfold Metrics.bits
  cases metrics.severity <;> cases metrics.logMessage <;> decide

theorem Queue.strFits_stringsOf : ∀ s ∈ stringsOf q.messages, StrFits s := by
  intro s hs
  obtain ⟨r, hr, hmem⟩ := mem_flatMap.mp hs
  obtain ⟨log, hlog, hreported⟩ := mem_filterMap.mp hr
  obtain ⟨hseverity, hmsg, -⟩ := (q.fits log hlog).report hreported
  simp only [mem_cons, not_mem_nil, or_false] at hmem
  rcases hmem with rfl | rfl
  · exact hseverity
  · exact hmsg

/-- **What is sent for a sample.** -/
theorem Queue.syslogLog_eq (hhost : StrFits hostname) (currentTime : Timeval) {sample}
    (hwf : sample.Wf)
    (hunread : sample.unread = encSample sample.type metrics hostname currentTime q.messages) :
    ∃ b, syslogLog ⟨sample, []⟩ = (.ok (), ⟨b,
      (rounds metrics.severity metrics.logMessage q.messages.length (stringsOf q.messages)).map
        fun labels => analyticsValue hostname currentTime labels.1 labels.2⟩) := by
  have hname : StrFits (ofString "syslog") := by decide
  have hcount : (Int32.ofInt q.messages.length).toInt.toNat = q.messages.length := by
    have hlt := q.count
    rw [Int32.toInt_ofInt_of_le (by omega) (by omega)]
    exact Int.toNat_natCast _
  unfold encSample encHeader at hunread
  simp only [List.append_assoc] at hunread
  obtain ⟨hwf₁, hunread₁⟩ := hwf.past hunread
  obtain ⟨hwf₂, hunread₂⟩ := hwf₁.past hunread₁
  obtain ⟨hwf₃, hunread₃⟩ := hwf₂.past hunread₂
  obtain ⟨hwf₄, hunread₄⟩ := hwf₃.past hunread₃
  obtain ⟨hwf₅, hunread₅⟩ := hwf₄.past hunread₄
  rw [flatMap_encReport] at hunread₅
  let values := (rounds metrics.severity metrics.logMessage q.messages.length
    (stringsOf q.messages)).map fun labels => analyticsValue hostname currentTime labels.1 labels.2
  obtain ⟨result, b, hsend, hdefined⟩ : ∃ result b, sendMessages hostname currentTime metrics.bits
      q.messages.length ⟨_, []⟩ = (result, ⟨b, [] ++ values⟩) ∧ result ≠ .error .undefined :=
    sendMessages_of_holds (bits_eq metrics).1 (bits_eq metrics).2 q.messages.length
      ⟨hwf₅, q.strFits_stringsOf, hunread₅⟩ []
  have hrun : unpackSample ⟨sample.advance (encString sample.type (ofString "syslog")).length, []⟩ =
      (result, ⟨b, values⟩) := by
    unfold unpackSample
    rw [lift_bind_eq (reads_unpackString hhost) hwf₁ hunread₁,
      lift_bind_eq (int32Format.reads_unpackCall _ trivial) hwf₂ hunread₂,
      lift_bind_eq (timevalFormat.reads_unpackCall _ trivial) hwf₃ hunread₃,
      lift_bind_eq (uint8Format.reads_unpack_one _ trivial) hwf₄ hunread₄, hcount]
    exact hsend
  refine ⟨b, ?_⟩
  unfold syslogLog
  rw [lift_bind_eq (reads_unpackString hname) hwf hunread]
  rcases result with (rc | _) | _
  · rw [bind_ok (attempt_rc hrun)]
    rfl
  · exact absurd rfl hdefined
  · rw [bind_ok (attempt_ok hrun)]
    rfl

/-! ## 4. What is sent and what should be -/

theorem analyticsValue_inj {sampletime s s' l l'}
    (h : analyticsValue hostname sampletime s l = analyticsValue hostname sampletime s' l') :
    s = s' ∧ l = l' := by
  have hkeys : ofString "severity" ≠ ofString "log_message" := by decide
  have hcompute := congrArg AnalyticsValue.computeData h
  unfold analyticsValue at hcompute
  cases s <;> cases s' <;> cases l <;> cases l' <;> simp_all

/-- Every message is well-formed. -/
def AllWellFormed (msgQueue : List Str) : Prop := ∀ log ∈ msgQueue, (wellFormed log).isSome

/-- **The condition on the labels and the queue.**  With both labels, only well-formed messages
match; otherwise all messages are well-formed, and `severity` alone is read right for one message,
`log_message` alone for none. -/
def Readable (metrics : Metrics) (msgQueue : List Str) : Prop :=
  match metrics.severity, metrics.logMessage with
  | true, true => ∀ log ∈ msgQueue, (regexec log).isSome → (wellFormed log).isSome
  | true, false => AllWellFormed msgQueue ∧ msgQueue.length = 1
  | false, true => False
  | false, false => AllWellFormed msgQueue

/-- The labels of the values that should be sent. -/
def labelsOf (severity log : Bool) (r : Report) : Option (Option Str) × Option (Option Str) :=
  (if severity then some (some r.severity) else none, if log then some (some r.logMsg) else none)

theorem rounds_both : ∀ (n : ℕ) (rs : List Report),
    rounds true true n (rs.flatMap fun r => [r.severity, r.logMsg]) =
      (rs.take n).map (labelsOf true true)
  | 0, _ => rfl
  | _ + 1, [] => rfl
  | n + 1, _ :: rs => congrArg (_ :: ·) (rounds_both n rs)

theorem rounds_severity : ∀ n strings,
    rounds true false n strings = (strings.take n).map fun s => (some (some s), none)
  | 0, _ => rfl
  | _ + 1, [] => rfl
  | n + 1, _ :: strings => congrArg (_ :: ·) (rounds_severity n strings)

theorem rounds_log : ∀ n strings,
    rounds false true n strings = (strings.take n).map fun s => (none, some (some s))
  | 0, _ => rfl
  | _ + 1, [] => rfl
  | n + 1, _ :: strings => congrArg (_ :: ·) (rounds_log n strings)

theorem rounds_neither : ∀ n strings,
    rounds false false n strings = List.replicate n (none, none)
  | 0, _ => rfl
  | n + 1, strings => congrArg (_ :: ·) (rounds_neither n strings)

theorem rounds_neither_iff :
    rounds false false msgQueue.length (stringsOf msgQueue) =
      (msgQueue.filterMap wellFormed).map (labelsOf false false) ↔ AllWellFormed msgQueue := by
  have hlabels : (msgQueue.filterMap wellFormed).map (labelsOf false false) =
      List.replicate (msgQueue.filterMap wellFormed).length (none, none) :=
    List.eq_replicate_iff.mpr ⟨length_map _, fun labels hlabels => by
      obtain ⟨r, -, rfl⟩ := mem_map.mp hlabels
      rfl⟩
  rw [rounds_neither, hlabels, AllWellFormed, ← filterMap_length_eq_length]
  exact ⟨fun heq => by simpa using (congrArg List.length heq).symm, fun heq => by rw [heq]⟩

section Readable

variable {metrics : Metrics} {msgQueue : List Str} (h : Written metrics msgQueue)

include h

/-- Something is reported, and all that is well-formed. -/
theorem Written.lengths : 0 < (msgQueue.filterMap reported).length ∧
    (msgQueue.filterMap wellFormed).length ≤ (msgQueue.filterMap reported).length := by
  refine ⟨?_, ?_⟩
  swap
  · simp only [length_filterMap_eq_countP]
    exact countP_mono_left fun log _ => isSome_reported_of_wellFormed
  obtain ⟨-, hknown, log, hlog, hmatch⟩ := h
  obtain ⟨r, hr⟩ := Option.isSome_iff_exists.mp (hknown log hlog hmatch)
  exact length_pos_of_mem (mem_filterMap.mpr ⟨log, hlog, hr⟩)

/-- The first message that is reported. -/
theorem Written.exists_first : ∃ log r rest, reported log = some r ∧
    stringsOf msgQueue = r.severity :: r.logMsg :: rest := by
  obtain ⟨r, rs, hreports⟩ := exists_cons_of_length_pos h.lengths.1
  obtain ⟨log, -, hr⟩ := mem_filterMap.mp (hreports ▸ mem_cons_self)
  refine ⟨log, r, rs.flatMap fun r => [r.severity, r.logMsg], hr, ?_⟩
  rw [stringsOf, hreports]
  rfl

theorem Written.both_iff : rounds true true msgQueue.length (stringsOf msgQueue) =
      (msgQueue.filterMap wellFormed).map (labelsOf true true) ↔
        ∀ log ∈ msgQueue, (regexec log).isSome → (wellFormed log).isSome := by
  rw [stringsOf, rounds_both, take_of_length_le (length_filterMap_le _ _)]
  constructor
  · intro heq log hlog hmatch
    have hlen := congrArg List.length heq
    rw [length_map, length_map, length_filterMap_eq_countP, length_filterMap_eq_countP] at hlen
    -- as many of the reported messages are well-formed as there are
    have hall : ∀ log ∈ msgQueue.filter fun log => (reported log).isSome,
        (wellFormed log).isSome := by
      rw [← countP_eq_length, countP_filter, ← countP_eq_length_filter, hlen]
      refine countP_congr fun log _ => ?_
      simpa using isSome_reported_of_wellFormed
    exact hall log (mem_filter.mpr ⟨hlog, h.2.1 log hlog hmatch⟩)
  · intro himp
    rw [filterMap_congr fun log hlog => ?_]
    rcases hwell : wellFormed log with _ | r
    · rcases hregexec : regexec log with _ | groups
      · rw [reported, hregexec]
        rfl
      · have hsome := himp log hlog (by rw [hregexec]; rfl)
        rw [hwell] at hsome
        cases hsome
    · exact reported_of_wellFormed hwell

theorem Written.severity_iff : rounds true false msgQueue.length (stringsOf msgQueue) =
      (msgQueue.filterMap wellFormed).map (labelsOf true false) ↔
        AllWellFormed msgQueue ∧ msgQueue.length = 1 := by
  rw [rounds_severity]
  constructor
  · intro heq
    obtain ⟨hpos, hle⟩ := h.lengths
    have hstrings : (stringsOf msgQueue).length = 2 * (msgQueue.filterMap reported).length := by
      unfold stringsOf
      simp [Nat.mul_comm]
    have hlen := congrArg List.length heq
    rw [length_map, length_take, length_map, hstrings] at hlen
    have hmax := length_filterMap_le reported msgQueue
    have hall : AllWellFormed msgQueue := filterMap_length_eq_length.mp (by omega)
    refine ⟨hall, ?_⟩
    by_contra hone
    -- the second string is a message and is taken for a severity
    obtain ⟨log, r, rest, hr, hfirst⟩ := h.exists_first
    have hmem : r.logMsg ∈ (stringsOf msgQueue).take msgQueue.length := by
      obtain ⟨n, hn⟩ := Nat.exists_eq_add_of_le' (show 2 ≤ msgQueue.length by omega)
      rw [hfirst, hn]
      exact mem_cons_of_mem _ mem_cons_self
    obtain ⟨w, hw, hlabels⟩ := mem_map.mp (heq ▸ mem_map_of_mem hmem)
    obtain ⟨log', -, hwell⟩ := mem_filterMap.mp hw
    simp only [labelsOf, if_true, Prod.mk.injEq, Option.some.injEq] at hlabels
    exact severity_ne_logMsg (reported_of_wellFormed hwell) hr hlabels.1
  · rintro ⟨hall, hone⟩
    obtain ⟨log, rfl⟩ := List.length_eq_one_iff.mp hone
    obtain ⟨r, hr⟩ := Option.isSome_iff_exists.mp (hall log mem_cons_self)
    simp [stringsOf, reported_of_wellFormed hr, hr, labelsOf]

theorem Written.not_log : rounds false true msgQueue.length (stringsOf msgQueue) ≠
      (msgQueue.filterMap wellFormed).map (labelsOf false true) := by
  rw [rounds_log]
  intro heq
  -- the first string is a severity and is taken for a message
  obtain ⟨log, r, rest, hr, hfirst⟩ := h.exists_first
  have hmem : r.severity ∈ (stringsOf msgQueue).take msgQueue.length := by
    have hpos := h.lengths.1
    have hmax := length_filterMap_le reported msgQueue
    obtain ⟨n, hn⟩ := Nat.exists_eq_add_of_le' (show 1 ≤ msgQueue.length by omega)
    rw [hfirst, hn]
    exact mem_cons_self
  obtain ⟨w, hw, hlabels⟩ := mem_map.mp (heq ▸ mem_map_of_mem hmem)
  obtain ⟨log', -, hwell⟩ := mem_filterMap.mp hw
  simp only [labelsOf, if_true, Prod.mk.injEq, Option.some.injEq] at hlabels
  exact severity_ne_logMsg hr (reported_of_wellFormed hwell) hlabels.2.symm

/-- **When the rounds are right.** -/
theorem Written.rounds_iff :
    rounds metrics.severity metrics.logMessage msgQueue.length (stringsOf msgQueue) =
      (msgQueue.filterMap wellFormed).map (labelsOf metrics.severity metrics.logMessage) ↔
        Readable metrics msgQueue := by
  unfold Readable
  cases metrics.severity <;> cases metrics.logMessage
  · exact rounds_neither_iff msgQueue
  · exact iff_false_intro h.not_log
  · exact h.severity_iff
  · exact h.both_iff

end Readable

theorem expected_eq (metrics hostname currentTime msgQueue) : expected metrics hostname currentTime msgQueue =
      ((msgQueue.filterMap wellFormed).map (labelsOf metrics.severity metrics.logMessage)).map
        fun labels => analyticsValue hostname currentTime labels.1 labels.2 := by
  rw [map_map]
  rfl

/-- **Syslog samples on the wire.**  Every sample that is written for a queue is read as one value for
each well-formed message, if and only if there is no sample or the queue is readable with these
labels. -/
theorem agrees_iff_labels (type : BufferType) (metrics : Metrics) (hostname : Str)
    (hhost : StrFits hostname) (currentTime : Timeval) (q : Queue) :
    Agrees type metrics hostname currentTime q.messages ↔
      (Written metrics q.messages → Readable metrics q.messages) := by
  constructor
  · intro hagrees hwritten
    obtain ⟨sample, s, hrun, hwf, rfl, hunread⟩ :=
      q.collect_of_written hwritten type hhost currentTime
    obtain ⟨b, hread⟩ := q.syslogLog_eq metrics hhost currentTime hwf hunread
    obtain ⟨b', hread'⟩ := hagrees sample s hrun
    have hsent := congrArg (fun result => result.2.kept) (hread.symm.trans hread')
    simp only [expected_eq] at hsent
    rw [← hwritten.rounds_iff]
    refine List.map_injective_iff.mpr ?_ hsent
    intro labels labels' heq
    obtain ⟨hseverity, hlog⟩ := analyticsValue_inj heq
    exact Prod.ext hseverity hlog
  · intro himp sample s hrun
    have hwritten := written_of_collect hrun
    obtain ⟨sample', s', hrun', hwf, rfl, hunread⟩ :=
      q.collect_of_written hwritten type hhost currentTime
    rw [hrun] at hrun'
    cases hrun'
    obtain ⟨b, hread⟩ := q.syslogLog_eq metrics hhost currentTime hwf hunread
    refine ⟨b, ?_⟩
    rw [hread, hwritten.rounds_iff.mpr (himp hwritten), expected_eq]

instance (log : Str) : Decidable (LogFits log) :=
  inferInstanceAs (Decidable (0 ∉ log ∧ log.length < 2 ^ 30))

/-- Two messages of users. -/
def twoMessages : Queue where
  messages := [ofString "<13>a", ofString "<14>b"]
  fits := by decide
  count := by decide

/-- With both labels the two messages are read as they should be. -/
theorem agrees_iff_labels_both : StrFits (ofString "node") ∧
    Agrees .fullyDesc ⟨true, true, true⟩ (ofString "node") ⟨0, 0⟩ twoMessages.messages := by
  refine ⟨by decide, (agrees_iff_labels .fullyDesc ⟨true, true, true⟩ (ofString "node") (by decide)
    ⟨0, 0⟩ twoMessages).mpr fun _ => ?_⟩
  have hall : ∀ log ∈ twoMessages.messages, (regexec log).isSome → (wellFormed log).isSome := by
    decide
  exact hall

/-- **With `severity` alone the strings are mixed up**: the second severity is the first message. -/
theorem strings_are_mixed_up :
    let collected := collectSyslogSample ⟨true, true, false⟩ (ofString "node") ⟨0, 0⟩
      twoMessages.messages ⟨Buffer.construct .fullyDesc, ⟨[], twoMessages.messages⟩⟩
    (collected.1.toOption.join.map fun sample => (syslogLog ⟨sample, []⟩).2.kept) =
      some [analyticsValue (ofString "node") ⟨0, 0⟩ (some (some (ofString "notice"))) none,
        analyticsValue (ofString "node") ⟨0, 0⟩
          (some (some (ofString "USER-LEVEL MESSAGES: a"))) none] ∧
    expected ⟨true, true, false⟩ (ofString "node") ⟨0, 0⟩ twoMessages.messages =
      [analyticsValue (ofString "node") ⟨0, 0⟩ (some (some (ofString "notice"))) none,
        analyticsValue (ofString "node") ⟨0, 0⟩ (some (some (ofString "info"))) none] :=
  ⟨by decide +kernel, by decide +kernel⟩

end Sensys.Orcm.Syslog
