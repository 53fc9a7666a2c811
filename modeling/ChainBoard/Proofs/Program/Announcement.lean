import ChainBoard.Proofs.Explorer.Records
import ChainBoard.Proofs.Log.Filter
import ChainBoard.Proofs.Program.Run
import ChainBoard.Proofs.Settings.Validity
import ChainBoard.Proofs.Time.Instant
import ChainBoard.Proofs.Time.Period

/-!
# The refresh period is announced as it was set

A run with a refresh period says so in one line of its log, which names the period that was set.
Everything else that a run notes for its users is the line about the explorer; what it notes while
it loads is of another level, and no text that an explorer or a setting puts into a record can be
taken for the start of a line. So no filter shows a line about another period, and where records for
users are shown, the line is there exactly if a period was set that is not zero.

## Main definitions

* `Program.Report.infos`: the records of a run for its users
* `Program.refreshLine`: the line about a refresh period
* `Program.Report.shownLines`: the lines of the log that are shown
* `Program.ShowsInfos`: a filter shows the records of a run for its users

## Main results

* `Client.level_of_mem_log`: what is noted while loading is of another level
* `Program.infos_next`, `Program.infos_watch`: a board more is nothing for users, and so is any
  number of boards
* `Program.refresh_of_refreshLine_mem`: no line about a period is shown but that of the run
* `Program.exists_refreshLine_mem`: a filter that shows records for users shows that line
* `Program.showsInfos_filter`: where nothing is set, or their own level, they are shown
* `Program.run_announces_period`: the line about the period that was set
-/

namespace ChainBoard

namespace Log.Entry

variable {entry : Entry}

/-! ## The lines of a record -/

/-- A line of a record starts like the record, or is indented. -/
theorem mem_lines_cases {now : Nat} {line : String} (h : line ∈ entry.lines now) :
    (∃ first, first <+: entry.text.toList ∧ line = entry.head now ++ String.ofList first) ∨
      ∃ further, line = "    " ++ String.ofList further := by
  unfold lines at h
  split at h
  · -- a text has at least one line
    rename_i hsplit
    exact absurd hsplit (List.splitOn_ne_nil '\n' _)
  · rename_i first further hsplit
    rcases List.mem_cons.1 h with rfl | hfurther
    · refine .inl ⟨first, ?_, rfl⟩
      have htext : ['\n'].intercalate (entry.text.toList.splitOn '\n') = entry.text.toList :=
        List.intercalate_splitOn '\n'
      rw [hsplit] at htext
      rw [← htext]
      cases further <;> simp
    · obtain ⟨rest, -, rfl⟩ := List.mem_map.1 hfurther
      exact .inr ⟨rest, rfl⟩

/-- A text without a line feed is one line. -/
theorem lines_of_notMem (now : Nat) (h : '\n' ∉ entry.text.toList) :
    entry.lines now = [entry.head now ++ entry.text] := by
  rw [lines, List.splitOn_eq_singleton h]
  simp

end Log.Entry

/-! ## Records for users -/

/-- What is noted while loading a board is of another level than what is noted for users. -/
theorem Client.level_of_mem_log {client : Client} {network : Http.Network} {unit : CoinUnit}
    {entry : Log.Entry} (h : entry ∈ (client.loadBoard network unit).log) :
    entry.level ≠ .info := by
  have hload (feed : Feed) (h : entry ∈ (client.load network unit feed).log) :
      entry.level ≠ .info := by
    rcases client.load_course network unit feed with ⟨report, -, hlog⟩ | ⟨code, hcode⟩ |
      ⟨fault, -, -, hlog⟩
    · rw [hlog, List.mem_singleton] at h
      subst h
      simp
    · rw [load_of_isRefused hcode, List.mem_singleton] at h
      subst h
      simp [skipped]
    · rw [hlog] at h
      cases h
  have hwarning (feed : Feed) (result : Except Fault Unit) (h : entry ∈ warning feed result) :
      entry.level ≠ .info := by
    unfold warning at h
    split at h
    · cases h
    · rw [List.mem_singleton] at h
      subst h
      simp
  rw [loadBoard, List.mem_append, List.mem_append, List.mem_append] at h
  rcases h with ((htip | hcoins) | htip) | hcoins
  · exact hload .tip htip
  · exact hload .coins hcoins
  · exact hwarning .tip _ htip
  · exact hwarning .coins _ hcoins

namespace Program

/-- The records of a run for its users. -/
def Report.infos (report : Report) : List Log.Entry :=
  report.log.filter (·.level = .info)

variable {settings : Settings} {seconds : Nat} {network : Http.Network}

theorem filter_log_cycle (settings : Settings) (network : Http.Network) :
    (cycle settings network).1.log.filter (·.level = .info) = [] := by
  rw [List.filter_eq_nil_iff]
  intro entry hentry
  rw [decide_eq_true_eq]
  exact Client.level_of_mem_log hentry

/-- The step lemma: one board more adds nothing for users. -/
theorem infos_next (report : Report) (settings : Settings) (network : Http.Network) :
    (report.next settings network).infos = report.infos := by
  show (report.log ++ (cycle settings network).1.log).filter _ = _
  rw [List.filter_append, filter_log_cycle, List.append_nil]
  rfl

/-- The run lemma: however many boards are shown, users are told once. -/
theorem infos_watch (settings : Settings) (seconds : Nat) (networks : List Http.Network) :
    (watch settings seconds networks).infos = [announcement settings, refreshing seconds] := by
  have hrun (report : Report) : (networks.foldl (Report.next settings) report).infos =
      report.infos := by
    induction networks generalizing report with
    | nil => rfl
    | cons network networks ih => rw [List.foldl_cons, ih, infos_next]
  rw [watch, hrun]
  rfl

/-- A run tells its users which explorer it uses and, if there is one, its refresh period. -/
theorem infos_runWith (settings : Settings) (network : Http.Network) :
    (runWith settings network).infos =
      announcement settings :: (settings.refresh.map refreshing).toList := by
  unfold runWith
  cases settings.refresh with
  | none =>
    show (announcement settings :: (cycle settings network).1.log).filter _ = _
    rw [List.filter_cons_of_pos (by rfl), filter_log_cycle]
    rfl
  | some seconds => exact infos_watch settings seconds [network]

/-! ## The line about the refresh period -/

/-- The start of a line for users about the run as a whole. -/
def lineHead (now : Nat) : String :=
  "[" ++ Time.Instant.compact now ++ " INFO  explorer_stats] "

/-- The line about a refresh period. -/
def refreshLine (now : Nat) (period : String) : String :=
  lineHead now ++ ("Refreshing every " ++ period ++ ".")

/-- The lines of the log that are shown, when the record with a number is written at the time that
the clock then shows. -/
def Report.shownLines (report : Report) (filter : Log.Filter) (clock : Nat → Nat) : List String :=
  (report.visibleLog filter).zipIdx.flatMap fun (entry, number) => entry.lines (clock number)

/-- A filter shows the records of a run for its users, whatever they say. -/
def ShowsInfos (filter : Log.Filter) : Prop :=
  ∀ text, filter.isShown ⟨.info, .program, text⟩ = true

theorem toList_head (now : Nat) (entry : Log.Entry) : (entry.head now).toList =
    '[' :: ((Time.Instant.compact now).toList ++ ' ' :: (entry.level.name.toList.rightpad 5 ' ' ++
      ' ' :: (entry.origin.target.toList ++ [']', ' ']))) := by
  simp [Log.Entry.head]

theorem head_eq_lineHead (now : Nat) (text : String) :
    (Log.Entry.mk .info .program text).head now = lineHead now := by
  rw [← String.toList_inj, toList_head]
  simp [lineHead, Log.Level.name, Log.Origin.target, List.rightpad]

/-- A line that starts like a line for users about the run is given by a record for users, and what
stands behind is the text of that record if it is about the run. -/
theorem of_lineHead_append {now now' : Nat} {entry : Log.Entry} {text first : String}
    (h : lineHead now ++ text = entry.head now' ++ first) :
    entry.level = .info ∧ (entry.origin = .program → text = first) := by
  have hlist := congrArg String.toList h
  rw [← head_eq_lineHead now "", String.toList_append, String.toList_append, toList_head,
    toList_head, List.cons_append, List.cons_append, List.append_assoc, List.append_assoc,
    List.cons_append, List.cons_append] at hlist
  -- the times of writing end at the first blank, so that what stands behind them is the same
  obtain ⟨-, hbehind⟩ := Text.append_cons_inj (Time.Instant.blank_notMem_compact now)
    (Time.Instant.blank_notMem_compact now') (List.cons.inj hlist).2
  obtain ⟨level, origin, _⟩ := entry
  cases level with
  | info =>
    refine ⟨rfl, ?_⟩
    rintro rfl
    exact String.toList_inj.1 (List.append_cancel_left hbehind)
  | error => simp [Log.Level.name] at hbehind
  | warn => simp [Log.Level.name] at hbehind
  | debug => simp [Log.Level.name] at hbehind

/-- The line about the period is given by a record for users, and if that record is about the run,
then its text starts like this. -/
theorem of_refreshLine_mem {now now' : Nat} {entry : Log.Entry} {period : String}
    (h : refreshLine now period ∈ entry.lines now') :
    entry.level = .info ∧ (entry.origin = .program →
      ("Refreshing every " ++ period ++ ".").toList <+: entry.text.toList) := by
  rcases Log.Entry.mem_lines_cases h with ⟨first, hfirst, heq⟩ | ⟨further, heq⟩
  · obtain ⟨hlevel, htext⟩ := of_lineHead_append heq
    refine ⟨hlevel, fun horigin => ?_⟩
    rw [htext horigin, String.toList_ofList]
    exact hfirst
  · -- the line is not indented
    have hhead := congrArg (·.toList.head?) heq
    simp [refreshLine, lineHead] at hhead

/-- The line about the explorer is another one. -/
theorem refreshLine_notMem_announcement (settings : Settings) (now now' : Nat) (period : String) :
    refreshLine now period ∉ (announcement settings).lines now' := by
  intro h
  obtain ⟨rest, htext⟩ := (of_refreshLine_mem h).2 rfl
  -- the texts of the two lines start with different letters
  have hletter := congrArg List.head? htext
  simp [announcement] at hletter

/-- The record about a refresh period is the line about it. -/
theorem lines_refreshing (now seconds : Nat) :
    (refreshing seconds).lines now = [refreshLine now (Time.Period.readable seconds)] := by
  have hbreak : '\n' ∉ (refreshing seconds).text.toList := by
    have hperiod := Time.Period.newline_notMem_readable seconds
    simpa [refreshing] using hperiod
  rw [Log.Entry.lines_of_notMem now hbreak, refreshing, head_eq_lineHead]
  rfl

/-- Whatever the times of writing, the lines about two periods are not the same. -/
theorem refreshLine_injective {now now' : Nat} {period period' : String}
    (h : refreshLine now period = refreshLine now' period') : period = period' := by
  rw [refreshLine, refreshLine, ← head_eq_lineHead now' ""] at h
  have hlist := congrArg String.toList ((of_lineHead_append h).2 rfl)
  simp only [String.toList_append] at hlist
  exact String.toList_inj.1 (List.append_cancel_left (List.append_cancel_right hlist))

/-- A line is shown by a record that is shown. -/
theorem mem_shownLines_iff {report : Report} {filter : Log.Filter} {clock : Nat → Nat}
    {line : String} : line ∈ report.shownLines filter clock ↔
      ∃ number, ∃ entry : Log.Entry, (report.visibleLog filter)[number]? = some entry ∧
        line ∈ entry.lines (clock number) := by
  rw [Report.shownLines, List.mem_flatMap]
  constructor
  · rintro ⟨⟨entry, number⟩, hmem, hline⟩
    exact ⟨number, entry, List.mk_mem_zipIdx_iff_getElem?.1 hmem, hline⟩
  · rintro ⟨number, entry, hget, hline⟩
    exact ⟨(entry, number), List.mk_mem_zipIdx_iff_getElem?.2 hget, hline⟩

section Shown

variable {report : Report} {filter : Log.Filter} {clock : Nat → Nat} {period : String}

/-- Whatever the filter, the line about a period is shown by a record for users. -/
theorem exists_info_of_refreshLine_mem {now : Nat}
    (h : refreshLine now period ∈ report.shownLines filter clock) :
    ∃ entry ∈ report.infos, ∃ now', refreshLine now period ∈ Log.Entry.lines now' entry := by
  obtain ⟨number, entry, hget, hline⟩ := mem_shownLines_iff.1 h
  obtain ⟨hmem, -⟩ := List.mem_filter.1 (List.mem_of_getElem? hget)
  refine ⟨entry, List.mem_filter.2 ⟨hmem, ?_⟩, _, hline⟩
  exact decide_eq_true (of_refreshLine_mem hline).1

/-- Whatever the filter, no line about a period is shown but that about the period of the run. -/
theorem refresh_of_refreshLine_mem {now : Nat}
    (h : refreshLine now period ∈ (runWith settings network).shownLines filter clock) :
    ∃ seconds, settings.refresh = some seconds ∧ period = Time.Period.readable seconds := by
  obtain ⟨entry, hentry, now', hline⟩ := exists_info_of_refreshLine_mem h
  rw [infos_runWith, List.mem_cons] at hentry
  rcases hentry with rfl | hrefreshing
  · exact absurd hline (refreshLine_notMem_announcement settings now now' period)
  · rw [Option.mem_toList, Option.map_eq_some_iff] at hrefreshing
    obtain ⟨seconds, hseconds, rfl⟩ := hrefreshing
    rw [lines_refreshing, List.mem_singleton] at hline
    exact ⟨seconds, hseconds, refreshLine_injective hline⟩

/-- A filter that shows records for users shows the line about the period of a run. -/
theorem exists_refreshLine_mem (network : Http.Network) (clock : Nat → Nat)
    (hshows : ShowsInfos filter) {seconds : Nat} (hrefresh : settings.refresh = some seconds) :
    ∃ now, refreshLine now (Time.Period.readable seconds) ∈
      (runWith settings network).shownLines filter clock := by
  have hinfo : refreshing seconds ∈ (runWith settings network).infos := by
    rw [infos_runWith, hrefresh]
    exact List.mem_cons_of_mem _ List.mem_cons_self
  have hvisible : refreshing seconds ∈ (runWith settings network).visibleLog filter :=
    List.mem_filter.2 ⟨(List.mem_filter.1 hinfo).1, hshows _⟩
  obtain ⟨number, hget⟩ := List.mem_iff_getElem?.1 hvisible
  refine ⟨clock number, mem_shownLines_iff.2 ⟨number, _, hget, ?_⟩⟩
  rw [lines_refreshing]
  exact List.mem_singleton_self _

end Shown

/-- Without a setting, or with that of the level for users in capital or small letters, the records
for users are shown. -/
theorem showsInfos_filter {patterns : Log.Patterns} {environment : String → Option String}
    (h : ∀ word, environment logName = some word →
      word.toList.map Char.toUpper = Log.Level.info.name.toList) :
    ShowsInfos (filter patterns environment) := by
  have hrank : Log.rank? ((environment logName).getD "info").toList =
      some Log.Level.info.rank := by
    apply Log.rank?_of_map_toUpper
    cases hword : environment logName with
    | none => decide +kernel
    | some word => exact h word hword
  intro text
  rw [filter, Log.Filter.isShown_ofSetting_levelName hrank]
  rfl

/-! ## The period that was set -/

variable {arguments : List String} {environment : String → Option String}

/-- A numeral that is accepted is the one that was read. -/
theorem refresh_of_isNumeral {text : String} {seconds : Nat}
    (hsettings : Settings.resolve arguments.head? environment = .ok settings)
    (hset : environment "EXPLORER_STATS_REFRESH" = some text)
    (hnumeral : Decimal.IsNumeral text.toList seconds) :
    settings.refresh = if seconds = 0 then none else some seconds := by
  have hgives := (Settings.resolve_eq_ok_iff.1 hsettings).refresh
  rw [hset] at hgives
  obtain ⟨n, ⟨hn, -⟩, hrefresh⟩ := hgives
  rwa [hn.unique hnumeral] at hrefresh

/-- A refresh period was set by a numeral of it, and is not zero. -/
theorem exists_isNumeral_of_refresh {seconds : Nat}
    (hsettings : Settings.resolve arguments.head? environment = .ok settings)
    (hrefresh : settings.refresh = some seconds) :
    ∃ text, environment "EXPLORER_STATS_REFRESH" = some text ∧
      Decimal.IsNumeral text.toList seconds ∧ 0 < seconds := by
  have hgives := (Settings.resolve_eq_ok_iff.1 hsettings).refresh
  rw [hrefresh] at hgives
  cases hset : environment "EXPLORER_STATS_REFRESH" with
  | none =>
    rw [hset] at hgives
    cases hgives
  | some text =>
    rw [hset] at hgives
    obtain ⟨n, ⟨hn, -⟩, hset'⟩ := hgives
    split at hset'
    · cases hset'
    · obtain rfl := Option.some.inj hset'
      exact ⟨text, rfl, hn, by omega⟩

/-- There is no refresh period exactly if none was set, or none but zero. -/
theorem refresh_eq_none_iff
    (hsettings : Settings.resolve arguments.head? environment = .ok settings) :
    settings.refresh = none ↔ environment "EXPLORER_STATS_REFRESH" = none ∨
      ∃ text, environment "EXPLORER_STATS_REFRESH" = some text ∧
        Decimal.IsNumeral text.toList 0 := by
  have hgives := (Settings.resolve_eq_ok_iff.1 hsettings).refresh
  cases hset : environment "EXPLORER_STATS_REFRESH" with
  | none =>
    rw [hset] at hgives
    exact iff_of_true hgives (.inl rfl)
  | some text =>
    rw [hset] at hgives
    obtain ⟨n, ⟨hn, -⟩, -⟩ := hgives
    rw [refresh_of_isNumeral hsettings hset hn]
    constructor
    · intro hnone
      have hzero : n = 0 := by
        by_contra hne
        rw [if_neg hne] at hnone
        cases hnone
      exact .inr ⟨text, rfl, hzero ▸ hn⟩
    · rintro (hunset | ⟨text', htext, hzero⟩)
      · cases hunset
      · cases htext
        rw [if_pos (hn.unique hzero)]

/-- **A run announces the refresh period that was set.** Whatever records are to be shown, a line
about a period names the one that was set. Records for users are shown when nothing says which
records are to be shown, or when their own level does. Where they are shown, there is a line about
the period that was set; behind it stands a text that names as many seconds as the setting does, and
no others, however the setting is spelled; there is no other line about a period, and none at all
exactly if there is no setting or it is a spelling of zero. -/
theorem run_announces_period (patterns : Log.Patterns) (clock : Nat → Nat) (network : Http.Network)
    (hsettings : Settings.resolve arguments.head? environment = .ok settings) :
    let filter := Program.filter patterns environment
    let lines := (run arguments environment network).shownLines filter clock
    (∀ now period, refreshLine now period ∈ lines →
      ∃ text seconds, environment "EXPLORER_STATS_REFRESH" = some text ∧
        Decimal.IsNumeral text.toList seconds ∧ Time.Period.Names period.toList seconds) ∧
    ((∀ word, environment "RUST_LOG" = some word →
      word.toList.map Char.toUpper = "INFO".toList) → ShowsInfos filter) ∧
    (ShowsInfos filter →
      (∀ text seconds, environment "EXPLORER_STATS_REFRESH" = some text →
        Decimal.IsNumeral text.toList seconds → 0 < seconds →
        ∃ period, Time.Period.Names period.toList seconds ∧
          (∀ seconds', Time.Period.Names period.toList seconds' → seconds' = seconds) ∧
          ∀ period', (∃ now, refreshLine now period' ∈ lines) ↔ period' = period) ∧
      ((∀ now period, refreshLine now period ∉ lines) ↔
        environment "EXPLORER_STATS_REFRESH" = none ∨
        ∃ text, environment "EXPLORER_STATS_REFRESH" = some text ∧
          Decimal.IsNumeral text.toList 0)) := by
  intro filter lines
  have hlines : lines = (runWith settings network).shownLines filter clock :=
    congrArg (·.shownLines filter clock) (run_of_resolve_ok hsettings network)
  refine ⟨?_, showsInfos_filter, ?_⟩
  · intro now period hline
    rw [hlines] at hline
    obtain ⟨seconds, hseconds, rfl⟩ := refresh_of_refreshLine_mem hline
    obtain ⟨text, hset, hnumeral, hpos⟩ := exists_isNumeral_of_refresh hsettings hseconds
    exact ⟨text, seconds, hset, hnumeral, Time.Period.names_readable hpos⟩
  · intro hshows
    constructor
    · intro text seconds hset hnumeral hpos
      have hrefresh := refresh_of_isNumeral hsettings hset hnumeral
      rw [if_neg (Nat.ne_of_gt hpos)] at hrefresh
      have hnames := Time.Period.names_readable hpos
      refine ⟨Time.Period.readable seconds, hnames, fun _ h => h.unique hnames, ?_⟩
      intro period'
      rw [hlines]
      constructor
      · rintro ⟨now, hline⟩
        obtain ⟨seconds', hseconds', rfl⟩ := refresh_of_refreshLine_mem hline
        rw [hrefresh] at hseconds'
        cases hseconds'
        rfl
      · rintro rfl
        exact exists_refreshLine_mem network clock hshows hrefresh
    · rw [← refresh_eq_none_iff hsettings, hlines]
      constructor
      · intro hnone
        cases hrefresh : settings.refresh with
        | none => rfl
        | some seconds =>
          obtain ⟨now, hline⟩ := exists_refreshLine_mem network clock hshows hrefresh
          exact absurd hline (hnone now _)
      · intro hrefresh now period hline
        obtain ⟨seconds, hseconds, -⟩ := refresh_of_refreshLine_mem hline
        rw [hrefresh] at hseconds
        cases hseconds

/-- A day, an hour, a minute and a second, set with a sign and a zero in front. -/
theorem run_announces_period_day :
    let environment : String → Option String := fun name =>
      if name = "EXPLORER_STATS_REFRESH" then some "+090061" else none
    let report := run [] environment Http.Network.silent
    Settings.resolve none environment =
        .ok ⟨"http://localhost:23110", "Rivine-Agent", ⟨9, "AUR"⟩, "", some 90061⟩ ∧
      ∃ period, Time.Period.Names period.toList 90061 ∧ ∃ now, refreshLine now period ∈
        report.shownLines (filter (fun _ => none) environment) id := by
  intro environment report
  have hsettings : Settings.resolve ([] : List String).head? environment =
      .ok ⟨"http://localhost:23110", "Rivine-Agent", ⟨9, "AUR"⟩, "", some 90061⟩ := by
    decide +kernel
  have hnumeral : Decimal.IsNumeral "+090061".toList 90061 :=
    Decimal.numeral?_eq_some_iff.1 (by decide +kernel)
  obtain ⟨-, hunset, hshown⟩ :=
    run_announces_period (fun _ => none) id Http.Network.silent hsettings
  have hshows : ShowsInfos (filter (fun _ => none) environment) := by
    apply hunset
    intro word hword
    cases hword
  obtain ⟨period, hnames, -, hline⟩ := (hshown hshows).1 "+090061" 90061 rfl hnumeral (by decide)
  exact ⟨hsettings, period, hnames, (hline period).2 rfl⟩

end Program

end ChainBoard
