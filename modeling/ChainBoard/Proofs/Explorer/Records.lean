import ChainBoard.Proofs.Explorer.Requests
import ChainBoard.Proofs.Figure.Coins

/-!
# The log of a load tells what happened to the board

Each loader of a board leaves one record in the log. It is the line about the report when the
contents of the report were put on the board, the line about the status code when the answer was of
no use, and a warning when the load failed. What each of them says is written out here, apart from
the places where the records are written: by the client, by the loader, or behind both loaders. The
three courses of a load are told apart first, and everything else is read off them.

## Main definitions

* `Feed.noted`, `Feed.refused`, `Feed.failed`: the records about a report, about a status code, and
  about an error
* `Client.records`: the records about one loader
* `Client.Tells`: a record tells how the load of a feed went
* `Outcome.writtenFor`: what was put on the board for a feed

## Main results

* `Client.load_course`: the three courses of a load
* `Client.exists_record`: a loader leaves one record, which tells how its load went
* `Session.log_step_board`: a load of both feeds leaves two records, one for each loader
-/

namespace ChainBoard

namespace Http.StatusCode

/-- A code can be told from how it is shown: it stands in front of the first blank. -/
theorem render_injective {code code' : Nat} (h : render code = render code') : code = code' := by
  have hlist (code : Nat) : (render code).toList = Nat.toDigits 10 code ++
      ' ' :: ((name? code).getD "<unknown status code>").toList := by
    simp [render]
  have htext := congrArg String.toList h
  rw [hlist, hlist] at htext
  apply Decimal.toDigits_injective
  exact (Text.append_cons_inj (Decimal.notMem_toDigits code rfl)
    (Decimal.notMem_toDigits code' rfl) htext).1

end Http.StatusCode

namespace Feed

/-! ## What the records say -/

/-- The record about a report. -/
def noted : (feed : Feed) → feed.Report → Log.Entry
  | tip, report =>
    ⟨.debug, .stats, "explorer at height " ++ toString report.height ++ ", tip " ++ report.blockId⟩
  | coins, report =>
    let height := match report.height with
      | some height => "Some(" ++ toString height ++ ")"
      | none => "None"
    ⟨.debug, .stats, "chain facts at height " ++ height ++ ", time " ++ toString report.time⟩

/-- The record about a status code that makes the answer of no use. -/
def refused (feed : Feed) (address : String) (code : Nat) : Log.Entry :=
  let url := address ++ feed.resource
  let status := toString code ++ " " ++ (Http.StatusCode.name? code).getD "<unknown status code>"
  ⟨.debug, .explorer, "GET " ++ url ++ " returned " ++ status ++ ", skipping"⟩

/-- The record about an error. -/
def failed : Feed → String → Log.Entry
  | tip, error => ⟨.warn, .stats, "Unable to load general stats: " ++ error⟩
  | coins, error => ⟨.warn, .stats, "Unable to load coin output stats: " ++ error⟩

variable {feed : Feed}

/-! The three kinds of records are told apart by their level and by who wrote them. -/

theorem noted_ne_refused {report : feed.Report} {address : String} {code : Nat} :
    feed.noted report ≠ feed.refused address code := by
  cases feed <;> simp [noted, refused]

theorem noted_ne_failed {report : feed.Report} {error : String} :
    feed.noted report ≠ feed.failed error := by
  cases feed <;> simp [noted, failed]

theorem refused_ne_failed {address : String} {code : Nat} {error : String} :
    feed.refused address code ≠ feed.failed error := by
  cases feed <;> simp [refused, failed]

/-- The code can be told from the record. -/
theorem refused_injective {address : String} {code code' : Nat}
    (h : feed.refused address code = feed.refused address code') : code = code' := by
  have htext : "GET " ++ (address ++ feed.resource) ++ " returned " ++
      Http.StatusCode.render code ++ ", skipping" = "GET " ++ (address ++ feed.resource) ++
      " returned " ++ Http.StatusCode.render code' ++ ", skipping" := congrArg Log.Entry.text h
  apply Http.StatusCode.render_injective
  simpa [← String.toList_inj] using htext

@[simp] theorem level_noted (report : feed.Report) : (feed.noted report).level = .debug := by
  cases feed <;> rfl

/-- A report is noted in its line. -/
theorem summary_eq_noted (report : feed.Report) :
    ⟨.debug, .stats, feed.summary report⟩ = feed.noted report := by
  cases feed with
  | tip => rfl
  | coins =>
    obtain ⟨height, time, _⟩ := report
    cases height <;> rfl

end Feed

namespace Client

variable {client : Client} {network : Http.Network} {unit : CoinUnit} {feed : Feed}

/-- The client notes a status code with the address of the feed. -/
theorem skipped_eq_refused (client : Client) (feed : Feed) (code : Nat) :
    skipped (client.request feed) code = feed.refused client.address code := by
  rw [skipped, url_request]
  rfl

example : (skipped ((ofAddress "http://e/" "").request .tip) 404).text =
    "GET http://e/explorer returned 404 Not Found, skipping" := by
  decide +kernel

/-- A fault is warned about in its wording. -/
theorem warning_error (feed : Feed) (fault : Fault) :
    warning feed (.error fault) = [feed.failed fault.message] := by
  cases feed <;> rfl

/-- The records about one loader: those that it writes itself, and the warning about it. -/
def records (client : Client) (network : Http.Network) (unit : CoinUnit) (feed : Feed) :
    List Log.Entry :=
  (client.load network unit feed).log ++ warning feed (client.load network unit feed).result

/-! ## The courses of a load -/

/-- The three courses of a load: a report is read, the answer is of no use, or the load fails. -/
theorem load_course (client : Client) (network : Http.Network) (unit : CoinUnit) (feed : Feed) :
    (∃ report, client.GetsReport network feed report ∧
        (client.load network unit feed).log = [feed.noted report]) ∨
      (∃ code, client.IsRefused network feed code) ∨
      ∃ fault, (client.load network unit feed).result = .error fault ∧
        (client.load network unit feed).entries = [] ∧
        (client.load network unit feed).log = [] := by
  rcases client.gets_cases network feed with ⟨report, hreport⟩ | hrefused | hnothing |
    ⟨refusal, hmalformed⟩
  · refine .inl ⟨report, hreport, ?_⟩
    rw [load_eq_of_getsReport hreport, Feed.summary_eq_noted]
  · exact .inr (.inl hrefused)
  · obtain ⟨requests, hload⟩ := load_of_getsNothing unit hnothing
    exact .inr (.inr ⟨_, by rw [hload], by rw [hload], by rw [hload]⟩)
  · have hload := load_of_getsMalformed unit hmalformed
    exact .inr (.inr ⟨.malformed refusal, by rw [hload], by rw [hload], by rw [hload]⟩)

/-- A client that gets a text was not refused. -/
theorem GetsReport.not_isRefused {report : feed.Report} (h : client.GetsReport network feed report)
    (code : Nat) : ¬ client.IsRefused network feed code := by
  obtain ⟨text, ⟨-, body, hr, -⟩, -⟩ := h
  rintro ⟨-, hc, body', complete, hr'⟩
  rw [hr] at hr'
  cases hr'
  exact hc rfl

theorem IsRefused.unique {code code' : Nat} (h : client.IsRefused network feed code)
    (h' : client.IsRefused network feed code') : code = code' := by
  obtain ⟨-, -, body, complete, hr⟩ := h
  obtain ⟨-, -, body', complete', hr'⟩ := h'
  rw [hr] at hr'
  cases hr'
  rfl

/-! ## What a record tells -/

/-- A record tells how the load of a feed went, of which `written` was put on the board. -/
structure Tells (client : Client) (network : Http.Network) (unit : CoinUnit) (feed : Feed)
    (written : Entries) (record : Log.Entry) : Prop where
  /-- It is about a report exactly when something was written. -/
  noted_iff : (∃ report, record = feed.noted report) ↔ written ≠ []
  /-- Something is written exactly when a report was got. -/
  written_iff : written ≠ [] ↔ ∃ report, client.GetsReport network feed report
  /-- It is about the report that was got, and all contents of that report were written. -/
  noted : ∀ report, client.GetsReport network feed report →
    record = feed.noted report ∧ written = feed.entries unit report
  /-- It is about a status code exactly when the answer had that code and was of no use. -/
  refused_iff : ∀ code, record = feed.refused client.address code ↔
    client.IsRefused network feed code
  /-- It is about an error exactly when the load failed. -/
  failed_iff : (∃ error, record = feed.failed error) ↔
    ∃ fault, (client.load network unit feed).result = .error fault
  /-- It is about the error with which the load failed. -/
  failed : ∀ fault, (client.load network unit feed).result = .error fault →
    record = feed.failed fault.message
  /-- Without a complete answer, the error is what there is to complain about. -/
  unanswered : client.GetsNothing network feed →
    record = feed.failed ("request failed: " ++ network.complaint (client.request feed))
  /-- With an answer that holds no report, the error is what the reader of reports says. -/
  malformed : ∀ refusal, client.GetsMalformed network feed refusal →
    record = feed.failed ("malformed response: " ++ refusal.message)

theorem entries_ne_nil (unit : CoinUnit) (report : feed.Report) : feed.entries unit report ≠ [] := by
  cases feed <;> simp [Feed.entries, TipReport.entries, CoinReport.entries]

theorem GetsReport.unique {report report' : feed.Report}
    (h : client.GetsReport network feed report) (h' : client.GetsReport network feed report') :
    report = report' := by
  obtain ⟨text, hg, hp⟩ := h
  obtain ⟨text', hg', hp'⟩ := h'
  have hfetch := (fetch_of_gets hg).symm.trans (fetch_of_gets hg')
  obtain rfl : text = text' := by simpa using hfetch
  exact Except.ok.inj (hp.symm.trans hp')

/-- What there is to say about a load that failed depends on the network. -/
theorem failed_cases {record : Log.Entry}
    (h : ∀ fault, (client.load network unit feed).result = .error fault →
      record = feed.failed fault.message) :
    (client.GetsNothing network feed →
      record = feed.failed ("request failed: " ++ network.complaint (client.request feed))) ∧
    ∀ refusal, client.GetsMalformed network feed refusal →
      record = feed.failed ("malformed response: " ++ refusal.message) := by
  constructor
  · intro hnothing
    obtain ⟨requests, hload⟩ := load_of_getsNothing unit hnothing
    exact h (.request _) (by rw [hload])
  · intro refusal hmalformed
    exact h (.malformed refusal) (by rw [load_of_getsMalformed unit hmalformed])

/-- The line about the report that was got. -/
theorem tells_noted {report : feed.Report} (h : client.GetsReport network feed report) :
    client.Tells network unit feed (feed.entries unit report) (feed.noted report) := by
  have hresult : (client.load network unit feed).result = .ok () := (load_of_getsReport h).2
  have hfailed : ∀ fault, (client.load network unit feed).result = .error fault →
      feed.noted report = feed.failed fault.message := by
    simp [hresult]
  exact {
    noted_iff := iff_of_true ⟨report, rfl⟩ (entries_ne_nil unit report)
    written_iff := iff_of_true (entries_ne_nil unit report) ⟨report, h⟩
    noted := by
      intro report' h'
      rw [h.unique h']
      exact ⟨rfl, rfl⟩
    refused_iff := fun code => iff_of_false Feed.noted_ne_refused (h.not_isRefused code)
    failed_iff := by simp [Feed.noted_ne_failed, hresult]
    failed := hfailed
    unanswered := (failed_cases hfailed).1
    malformed := (failed_cases hfailed).2 }

/-- The line about the status code of an answer that was of no use. -/
theorem tells_refused {code : Nat} (h : client.IsRefused network feed code) :
    client.Tells network unit feed [] (feed.refused client.address code) := by
  have hnone (report : feed.Report) : ¬ client.GetsReport network feed report :=
    fun hreport => hreport.not_isRefused code h
  have hresult : (client.load network unit feed).result = .ok () := by
    rw [load_of_isRefused h]
  have hfailed : ∀ fault, (client.load network unit feed).result = .error fault →
      feed.refused client.address code = feed.failed fault.message := by
    simp [hresult]
  exact {
    noted_iff := by simp [Feed.noted_ne_refused.symm]
    written_iff := by simp [hnone]
    noted := fun report hreport => absurd hreport (hnone report)
    refused_iff := by
      intro code'
      constructor
      · intro he
        exact Feed.refused_injective he ▸ h
      · intro h'
        rw [h.unique h']
    failed_iff := by simp [Feed.refused_ne_failed, hresult]
    failed := hfailed
    unanswered := (failed_cases hfailed).1
    malformed := (failed_cases hfailed).2 }

/-- The warning about a load that failed. -/
theorem tells_failed {fault : Fault} (h : (client.load network unit feed).result = .error fault) :
    client.Tells network unit feed [] (feed.failed fault.message) := by
  have hnone (report : feed.Report) : ¬ client.GetsReport network feed report := by
    intro hreport
    rw [(load_of_getsReport hreport).2] at h
    cases h
  have hrefused (code : Nat) : ¬ client.IsRefused network feed code := by
    intro hcode
    rw [load_of_isRefused hcode] at h
    cases h
  have hfailed : ∀ fault', (client.load network unit feed).result = .error fault' →
      feed.failed fault.message = feed.failed fault'.message := by
    intro fault' h'
    rw [h] at h'
    cases h'
    rfl
  exact {
    noted_iff := by simp [Feed.noted_ne_failed.symm]
    written_iff := by simp [hnone]
    noted := fun report hreport => absurd hreport (hnone report)
    refused_iff := fun code => iff_of_false Feed.refused_ne_failed.symm (hrefused code)
    failed_iff := iff_of_true ⟨_, rfl⟩ ⟨fault, h⟩
    failed := hfailed
    unanswered := (failed_cases hfailed).1
    malformed := (failed_cases hfailed).2 }

/-- A loader leaves one record, which tells how its load went; it is a warning only if the loader
has written none itself. -/
theorem exists_record (client : Client) (network : Http.Network) (unit : CoinUnit) (feed : Feed) :
    ∃ record, client.records network unit feed = [record] ∧
      client.Tells network unit feed (client.load network unit feed).entries record ∧
      (record.level = .warn → (client.load network unit feed).log = []) := by
  rcases client.load_course network unit feed with ⟨report, hreport, hlog⟩ | ⟨code, hcode⟩ |
    ⟨fault, hresult, hentries, hlog⟩
  · obtain ⟨hentries, hresult⟩ : (client.load network unit feed).entries =
        feed.entries unit report ∧ (client.load network unit feed).result = .ok () :=
      load_of_getsReport hreport
    refine ⟨feed.noted report, ?_, hentries ▸ tells_noted hreport, ?_⟩
    · rw [records, hlog, hresult]
      rfl
    · simp
  · have hload : client.load network unit feed =
        ⟨[client.request feed], [feed.refused client.address code], [], .ok ()⟩ := by
      rw [load_of_isRefused hcode, skipped_eq_refused]
    refine ⟨feed.refused client.address code, ?_, ?_, ?_⟩
    · rw [records, hload]
      rfl
    · rw [hload]
      exact tells_refused hcode
    · rintro ⟨⟩
  · refine ⟨feed.failed fault.message, ?_, hentries ▸ tells_failed hresult, fun _ => hlog⟩
    rw [records, hlog, hresult, warning_error]
    rfl

/-- The records of loading both feeds are those about the two loaders. -/
theorem log_loadBoard_perm (client : Client) (network : Http.Network) (unit : CoinUnit) :
    (client.loadBoard network unit).log.Perm
      (client.records network unit .tip ++ client.records network unit .coins) := by
  simp only [loadBoard, records, List.append_assoc]
  exact (List.perm_append_comm_assoc _ _ _).append_left _

end Client

/-- What was put on the board for a feed. -/
def Outcome.writtenFor (outcome : Outcome) (feed : Feed) : Entries :=
  outcome.entries.filter fun entry => Feed.ofSlot entry.1 = feed

namespace Session

variable {session : Session} {network : Http.Network}

/-- A load of both feeds writes for each feed what loading that feed alone writes. -/
theorem writtenFor_outcome_board (feed : Feed) :
    (session.outcome network .board).writtenFor feed =
      (session.client.load network session.unit feed).entries := by
  have hself (f : Feed) : ((session.client.load network session.unit f).entries.filter
      fun entry => Feed.ofSlot entry.1 = f) =
        (session.client.load network session.unit f).entries := by
    apply List.filter_eq_self.2
    intro entry hentry
    simpa using Client.ofSlot_eq_of_mem_load (List.mem_map_of_mem hentry)
  have hother (f f' : Feed) (hne : f ≠ f') :
      ((session.client.load network session.unit f).entries.filter
        fun entry => Feed.ofSlot entry.1 = f') = [] := by
    apply List.filter_eq_nil_iff.2
    intro entry hentry
    simpa [Client.ofSlot_eq_of_mem_load (List.mem_map_of_mem hentry)] using hne
  change ((session.client.load network session.unit .tip).entries ++
    (session.client.load network session.unit .coins).entries).filter _ = _
  rw [List.filter_append]
  cases feed with
  | tip => rw [hself, hother .coins .tip (by decide), List.append_nil]
  | coins => rw [hself, hother .tip .coins (by decide), List.nil_append]

/-- **No loader of a board is silent, and the log tells what happened to the board.** A load of both
feeds leaves two records, one for each loader. Each tells how its load went: by its kind, by what it
says, and by what was put on the board. An address is shown without the slashes at its end. When
both are warnings, that about the tip comes first; and the slots of a feed change only if its record
is the line about a report. -/
theorem log_step_board (address userAgent : String) (unit : CoinUnit) (board : Board)
    (network : Http.Network) :
    let client := Client.ofAddress address userAgent
    let step := (Session.mk client unit board).step network .board
    ((∃ k, address.toList = client.address.toList ++ List.replicate k '/') ∧
        client.address.toList.getLast? ≠ some '/') ∧
      ∃ record : Feed → Log.Entry,
        step.2.log.Perm [record .tip, record .coins] ∧
        ((record .tip).level = .warn → (record .coins).level = .warn →
          step.2.log = [record .tip, record .coins]) ∧
        ∀ feed : Feed,
          client.Tells network unit feed (step.2.writtenFor feed) (record feed) ∧
          ∀ slot ∈ feed.slots, step.1.board.get slot ≠ board.get slot →
            ∃ report, record feed = feed.noted report := by
  intro client step
  refine ⟨⟨Settings.exists_trimAddress_append address,
    Settings.getLast?_trimAddress_ne address⟩, ?_⟩
  choose record hrecords htells hwarn using client.exists_record network unit
  refine ⟨record, ?_, ?_, ?_⟩
  · have hperm := client.log_loadBoard_perm network unit
    rw [hrecords, hrecords] at hperm
    exact hperm
  · intro htip hcoins
    change (client.load network unit .tip).log ++ (client.load network unit .coins).log ++ _ ++ _ = _
    have ht := hrecords .tip
    have hc := hrecords .coins
    rw [Client.records, hwarn .tip htip, List.nil_append] at ht
    rw [Client.records, hwarn .coins hcoins, List.nil_append] at hc
    rw [hwarn .tip htip, hwarn .coins hcoins, ht, hc]
    rfl
  · intro feed
    have hwritten : step.2.writtenFor feed = (client.load network unit feed).entries :=
      writtenFor_outcome_board feed
    refine ⟨?_, ?_⟩
    · rw [hwritten]
      exact htells feed
    · intro slot hslot hne
      refine (htells feed).noted_iff.2 fun hnil => hne ?_
      have hafter := board.agreesOn_after client network unit feed slot hslot
      rw [Board.after, Board.after, hnil] at hafter
      exact hafter

end Session

end ChainBoard
